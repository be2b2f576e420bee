import StaticStyle.Css.Token
import StaticStyle.Syntax.Token

/-!
# What names stand for

A name stands for its characters, with an escaped character for what is behind a
backslash.  Keywords of stylesheets are compared with what a name stands for, and
in lower case.
-/

namespace StaticStyle.Css

open StaticStyle.Syntax (isHexDigit)

/-- The character of an escaped code. -/
def escapedChar (code : Nat) : Char :=
  if code ≠ 0 ∧ code.isValidChar then Char.ofNat code else '\uFFFD'

/-- The text behind the blank that may end an escaped code. -/
def dropBlank : List Char → List Char
  | '\r' :: '\n' :: s => s
  | c :: s => if isBlank c then s else c :: s
  | [] => []

/-- The characters that a name stands for: up to six hexadecimal digits behind a backslash for the
character of their code, and any other character behind a backslash for itself. -/
def unescape : (count : Nat) → List Char → List Char
  | count + 1, '\\' :: c :: s =>
      if isHexDigit c then
        let digits := ((c :: s).takeWhile isHexDigit).take 6
        escapedChar (Number.natOfDigits 16 digits) ::
          unescape count (dropBlank ((c :: s).drop digits.length))
      else c :: unescape count s
  | count + 1, c :: s => c :: unescape count s
  | _, _ => []

/-- The text that a name stands for. -/
def nameValue (s : List Char) : List Char := unescape s.length s

/-- The keyword that a token is: its name in lower case, without the `@` in front of it
or the parenthesis behind it. -/
def Token.keyword (t : Token) : String :=
  let name :=
    match t.kind with
    | .atKeyword => t.text.drop 1
    | .function => t.text.dropLast
    | _ => t.text
  String.ofList ((nameValue name).map Char.toLower)

example : Token.keyword ⟨.atKeyword, "@\\6d eDIA".toList⟩ = "media" := by decide

end StaticStyle.Css
