import StaticStyle.Number.Notation
import StaticStyle.Syntax.Letter
import StaticStyle.Text.Span

/-!
# Tokens of a script

A token is taken off the front of a text by `scanToken`, which returns it with
its lexeme and the text after it.  White space and comments between tokens are
skipped by `skipGap`, which notes whether it crossed a line break.

Three parts of the language cannot be told apart at this level: a regular
expression and a division, the text of an element and ordinary tokens, and the
end of an interpolation and a closing brace.  `scanToken` always takes the second
reading, and the parser asks for the first where the grammar allows it:
`scanRegex`, `scanElementText`, `scanElementString` and `scanTemplate`.
The mark `>` is never joined with what follows, so that type arguments can be
closed one at a time; `scanShift` joins it where an operator is expected.

A text that is no token gives `Token.invalid`, which no rule of the grammar
accepts.
-/

namespace StaticStyle.Syntax

open StaticStyle.Text (byteLength)

/-- A token. -/
inductive Token where
  /-- The end of the text. -/
  | endOfText
  /-- An identifier or keyword.  `escaped` says whether it is written with an
  escape, which no keyword may be. -/
  | word (name : String) (escaped : Bool)
  /-- A name after `#`. -/
  | privateName (name : String)
  /-- A number, as it is written. -/
  | number (literal : String)
  /-- An integer of any size, as it is written. -/
  | bigint (literal : String)
  /-- A string, by its value. -/
  | string (value : String)
  /-- A part of a template up to an interpolation, or up to its end if `final`.
  `cooked` is its value unless it holds an escape that means nothing. -/
  | template (cooked : Option String) (raw : String) (final : Bool)
  /-- An operator or a bracket. -/
  | mark (text : String)
  /-- No token at all. -/
  | invalid
deriving DecidableEq, Repr, Inhabited

/-- A token, its lexeme and the text after it. -/
structure Scan where
  /-- The token. -/
  token : Token
  /-- The characters it is written with. -/
  lexeme : List Char
  /-- The text after it. -/
  rest : List Char
deriving Repr, Inhabited

/-! ## Gaps -/

/-- The characters that end a line. -/
def isLineBreak (c : Char) : Bool :=
  c == '\n' || c == '\r' || c == '\u2028' || c == '\u2029'

/-- The characters besides line breaks that may stand between tokens. -/
def isSpace (c : Char) : Bool :=
  c == ' ' || c == '\t' || c == '\x0b' || c == '\x0c' || c == '\u0085' || c == '\u00A0' ||
  c == '\u1680' || ('\u2000' ≤ c && c ≤ '\u200B') || c == '\u202F' || c == '\u205F' ||
  c == '\u3000' || c == '\uFEFF'

/-- What surrounds the characters of a gap. -/
inductive GapState where
  /-- No comment. -/
  | between
  /-- A comment that ends with the line. -/
  | line
  /-- A comment that ends with a star and a slash, and whether a star came last. -/
  | block (star : Bool)
deriving DecidableEq, Repr

/-- The text after a gap, with the offset there and whether the gap holds a line
break.  A comment that is not closed has no result. -/
def skipGap : GapState → (newline : Bool) → (pos : Nat) → List Char →
    Option (Bool × Nat × List Char)
  | .block _, _, _, [] => none
  | _, newline, pos, [] => some (newline, pos, [])
  | .between, newline, pos, c :: s =>
      if isLineBreak c then skipGap .between true (pos + c.utf8Size) s
      else if isSpace c then skipGap .between newline (pos + c.utf8Size) s
      else if c == '/' then
        match s with
        | '/' :: t => skipGap .line newline (pos + 2) t
        | '*' :: t => skipGap (.block false) newline (pos + 2) t
        | _ => some (newline, pos, c :: s)
      else some (newline, pos, c :: s)
  | .line, newline, pos, c :: s =>
      if isLineBreak c then skipGap .between true (pos + c.utf8Size) s
      else skipGap .line newline (pos + c.utf8Size) s
  | .block star, newline, pos, c :: s =>
      if star && c == '/' then skipGap .between newline (pos + c.utf8Size) s
      else skipGap (.block (c == '*')) (newline || isLineBreak c) (pos + c.utf8Size) s
termination_by structural _ _ _ s => s

/-! ## Escapes -/

/-- Whether a character is a digit in base sixteen. -/
def isHexDigit (c : Char) : Bool := Number.digitValue c < 16

/-- Whether a character is a digit in base eight. -/
def isOctalDigit (c : Char) : Bool := Number.digitValue c < 8

/-- A code point, an unpaired surrogate being replaced by `U+FFFD`. -/
def charOfCode (n : Nat) : Char :=
  if 0xD800 ≤ n && n < 0xE000 then '\uFFFD' else Char.ofNat n

/-- The code point of an escape after its `\u`, and the text after it. -/
def readCodePoint : List Char → Option (Nat × List Char)
  | '{' :: s =>
      let (digits, rest) := s.span isHexDigit
      match rest with
      | '}' :: rest =>
          let n := Number.natOfDigits 16 digits
          if digits.isEmpty || 0x10FFFF < n then none else some (n, rest)
      | _ => none
  | a :: b :: c :: d :: s =>
      if [a, b, c, d].all isHexDigit then some (Number.natOfDigits 16 [a, b, c, d], s) else none
  | _ => none

/-- A code point and, if it is the first half of a pair, its second half. -/
def readPaired (s : List Char) : Option (Char × List Char) := do
  let (high, rest) ← readCodePoint s
  if 0xD800 ≤ high && high < 0xDC00 then
    match rest with
    | '\\' :: 'u' :: next =>
        match readCodePoint next with
        | some (low, after) =>
            if 0xDC00 ≤ low && low < 0xE000 then
              return (Char.ofNat (0x10000 + (high - 0xD800) * 0x400 + (low - 0xDC00)), after)
            else return (charOfCode high, rest)
        | none => return (charOfCode high, rest)
    | _ => return (charOfCode high, rest)
  else return (charOfCode high, rest)

/-- Splits the digits of an octal escape off the front of a text: as many as stand for a
number of one byte. -/
def splitOctal (s : List Char) : List Char × List Char :=
  let most := if s.head?.any fun c => '4' ≤ c then 2 else 3
  let digits := (s.take most).takeWhile isOctalDigit
  (digits, s.drop digits.length)

/-- The value of an escape after its backslash: no character for a continued
line, and one for every other escape.  Digits stand for a character only if `octal`
says so. -/
def readEscape (octal : Bool) : List Char → Option (List Char × List Char)
  | 'n' :: s => some (['\n'], s)
  | 't' :: s => some (['\t'], s)
  | 'r' :: s => some (['\r'], s)
  | 'b' :: s => some (['\x08'], s)
  | 'f' :: s => some (['\x0c'], s)
  | 'v' :: s => some (['\x0b'], s)
  | 'x' :: a :: b :: s =>
      if isHexDigit a && isHexDigit b then
        some ([Char.ofNat (Number.natOfDigits 16 [a, b])], s)
      else none
  | 'u' :: s => (readPaired s).map fun (c, s) => ([c], s)
  | '\r' :: '\n' :: s => some ([], s)
  | c :: s =>
      if isLineBreak c then some ([], s)
      else if octal && isOctalDigit c then
        let (digits, rest) := splitOctal (c :: s)
        some ([Char.ofNat (Number.natOfDigits 8 digits)], rest)
      else if c == '0' && !(s.head?.map Char.isDigit).getD false then some (['\x00'], s)
      else if (!octal && c.isDigit) || c == 'x' then none
      else some ([c], s)
  | [] => none

/-- The value of the characters between the quotes of a string or a template.
Line breaks become line feeds.  `fuel` bounds their number. -/
def decodeChars (octal : Bool) : (fuel : Nat) → List Char → Option (List Char)
  | _, [] => some []
  | 0, _ => none
  | fuel + 1, '\\' :: s => do
      let (value, rest) ← readEscape octal s
      let more ← decodeChars octal fuel rest
      return value ++ more
  | fuel + 1, '\r' :: '\n' :: s => (decodeChars octal fuel s).map ('\n' :: ·)
  | fuel + 1, c :: s => (decodeChars octal fuel s).map ((if c == '\r' then '\n' else c) :: ·)
termination_by structural fuel => fuel

/-- The value of the characters between quotes.  Octal escapes mean something in a string, but not in
a template. -/
def decode (octal : Bool) (s : List Char) : Option (List Char) := decodeChars octal s.length s

/-! ## Strings and templates -/

/-- The characters of a string up to its quote, and the text from there on.  A
line break ends it unless it is escaped. -/
def splitString (quote : Char) : List Char → Option (List Char × List Char)
  | [] => none
  | '\\' :: '\r' :: '\n' :: s =>
      (splitString quote s).map fun (a, b) => ('\\' :: '\r' :: '\n' :: a, b)
  | '\\' :: c :: s => (splitString quote s).map fun (a, b) => ('\\' :: c :: a, b)
  | c :: s =>
      if c == quote then some ([], c :: s)
      else if c == '\n' || c == '\r' then none
      else (splitString quote s).map fun (a, b) => (c :: a, b)

/-- A string whose first character is its quote. -/
def scanString (quote : Char) (s : List Char) : Scan :=
  match splitString quote s with
  | some (body, _ :: rest) =>
      let lexeme := quote :: body ++ [quote]
      match decode true body with
      | some value => ⟨.string (String.ofList value), lexeme, rest⟩
      | none => ⟨.invalid, lexeme, rest⟩
  | _ => ⟨.invalid, [quote], s⟩

/-- The characters of a template up to its end or an interpolation, and the text
from there on. -/
def splitTemplate : List Char → Option (List Char × List Char)
  | [] => none
  | '\\' :: c :: s => (splitTemplate s).map fun (a, b) => ('\\' :: c :: a, b)
  | '$' :: '{' :: s => some ([], '$' :: '{' :: s)
  | c :: s =>
      if c == '`' then some ([], c :: s) else (splitTemplate s).map fun (a, b) => (c :: a, b)

/-- A part of a template whose first character, a quote or the brace that closes
an interpolation, has been taken. -/
def scanTemplate (opening : Char) (s : List Char) : Scan :=
  let part (body closing rest : List Char) (final : Bool) : Scan :=
    ⟨.template ((decode false body).map String.ofList) (String.ofList body) final,
      opening :: body ++ closing, rest⟩
  match splitTemplate s with
  | some (body, '`' :: rest) => part body ['`'] rest true
  | some (body, '$' :: '{' :: rest) => part body ['$', '{'] rest false
  | _ => ⟨.invalid, [opening], s⟩

/-! ## Words -/

/-- The longest identifier at the front of a text, by its letters, its lexeme
and the text after it. -/
def splitWord : (fuel : Nat) → (first : Bool) → List Char →
    Option (List Char × List Char × List Char)
  | 0, _, s => some ([], [], s)
  | fuel + 1, first, s =>
      let letter := if first then isIdStart else isIdPart
      match s with
      | '\\' :: 'u' :: t =>
          match readCodePoint t with
          | some (n, rest) =>
              let c := charOfCode n
              if letter c then
                let written := '\\' :: 'u' :: t.take (t.length - rest.length)
                (splitWord fuel false rest).map fun (a, b, r) => (c :: a, written ++ b, r)
              else none
          | none => none
      | '\\' :: _ => none
      | c :: t =>
          if letter c then (splitWord fuel false t).map fun (a, b, r) => (c :: a, c :: b, r)
          else some ([], [], s)
      | [] => some ([], [], [])
termination_by structural fuel => fuel

/-- An identifier, if the text starts with one. -/
def scanWord (s : List Char) : Scan :=
  match splitWord (s.length + 1) true s with
  | some (c :: letters, lexeme, rest) =>
      ⟨.word (String.ofList (c :: letters)) (lexeme.contains '\\'), lexeme, rest⟩
  | _ => ⟨.invalid, s.take 1, s.drop 1⟩

/-! ## Numbers -/

/-- Whether underscores stand only between digits. -/
def separatorsFit : List Char → Bool
  | [] => true
  | ['_'] => false
  | '_' :: '_' :: _ => false
  | _ :: s => separatorsFit s

/-- Whether a row of digits and underscores is a numeral. -/
def isNumeral (s : List Char) : Bool :=
  !s.isEmpty && s.head? != some '_' && separatorsFit s

/-- Splits the digits of a base, with underscores, off the front of a text. -/
def splitDigits (base : Nat) (s : List Char) : List Char × List Char :=
  s.span fun c => c == '_' || Number.digitValue c < base

/-- The base that a letter after a leading zero stands for. -/
def baseOf : Char → Option Nat
  | 'x' | 'X' => some 16
  | 'o' | 'O' => some 8
  | 'b' | 'B' => some 2
  | _ => none

/-- The token of a number, unless a letter or a digit follows it at once. -/
def finishNumber (good : Bool) (lexeme rest : List Char) : Scan :=
  let bad : Scan := ⟨.invalid, lexeme, rest⟩
  let ends (rest : List Char) := match rest with
    | c :: _ => !(isIdPart c || c == '\\')
    | [] => true
  if !good then bad
  else match rest with
    | 'n' :: rest =>
        if ends rest && !lexeme.contains '.' then
          ⟨.bigint (String.ofList lexeme), lexeme ++ ['n'], rest⟩
        else bad
    | _ => if ends rest then ⟨.number (String.ofList lexeme), lexeme, rest⟩ else bad

/-- Splits an exponent off the front of a text, and says whether it is complete. -/
def splitExponent (s : List Char) : Bool × List Char × List Char :=
  match s with
  | c :: t =>
      if c == 'e' || c == 'E' then
        let (sign, t) := match t with
          | '+' :: t => (['+'], t)
          | '-' :: t => (['-'], t)
          | t => ([], t)
        let (digits, rest) := splitDigits 10 t
        (isNumeral digits, c :: sign ++ digits, rest)
      else (true, [], s)
  | [] => (true, [], s)

/-- Whether the whole part of a number has a zero in front of more digits.  It is octal then
if it can be. -/
def isPadded (whole : List Char) : Bool := whole.head? == some '0' && whole != ['0']

/-- An octal number whose digits only a zero stands in front of: nothing else may belong to it. -/
def scanPadded (whole rest : List Char) : Scan := finishNumber (rest.head? != some 'n') whole rest

/-- A decimal number from its whole part on. -/
def scanDecimal (whole rest : List Char) : Scan :=
  let wholeFits := whole.isEmpty || (isNumeral whole && (!isPadded whole || whole.all Char.isDigit))
  let (point, fraction, rest) := match rest with
    | '.' :: t =>
        let (fraction, t) := splitDigits 10 t
        (['.'], fraction, t)
    | t => ([], [], t)
  let fractionFits := fraction.isEmpty || isNumeral fraction
  let (exponentFits, exponent, rest) := splitExponent rest
  let plain := rest.head? != some 'n' || (exponent.isEmpty && !isPadded whole)
  finishNumber (wholeFits && fractionFits && exponentFits && plain)
    (whole ++ point ++ fraction ++ exponent) rest

/-- A number in base ten, or in base eight without a letter that says so. -/
def scanUnmarked (s : List Char) : Scan :=
  let (whole, rest) := splitDigits 10 s
  if isPadded whole && whole.all isOctalDigit then scanPadded whole rest else scanDecimal whole rest

/-- A number that starts with a digit, or with a point before a digit. -/
def scanNumber (s : List Char) : Scan :=
  match s with
  | '0' :: c :: t =>
      match baseOf c with
      | some base =>
          let (digits, rest) := splitDigits base t
          finishNumber (isNumeral digits) ('0' :: c :: digits) rest
      | none => scanUnmarked s
  | _ => scanUnmarked s

/-! ## Marks -/

/-- The operators and brackets, longer ones first.  Of those that start with `>`
only the mark itself is among them. -/
def marks : List (List Char) :=
  ["...", "===", "!==", "**=", "<<=", "&&=", "||=", "??=",
   "=>", "==", "!=", "++", "--", "+=", "-=", "**", "*=", "/=", "%=", "&&", "&=", "||", "|=", "^=",
   "<<", "<=", "??", "?.",
   "(", ")", "[", "]", "\x7b", "\x7d", ";", ",", ".", ":", "?", "~", "!", "=", "+", "-", "*", "/", "%",
   "&", "|", "^", "<", ">", "@"].map String.toList

/-- Whether `?.` is no mark here, since the point belongs to a number. -/
def isConditionalFraction (mark rest : List Char) : Bool :=
  mark == ['?', '.'] && (rest.head?.map Char.isDigit).getD false

/-- An operator or a bracket. -/
def scanMark (s : List Char) : Scan :=
  match marks.find? fun m => m.isPrefixOf s && !isConditionalFraction m (s.drop m.length) with
  | some m => ⟨.mark (String.ofList m), m, s.drop m.length⟩
  | none => ⟨.invalid, s.take 1, s.drop 1⟩

/-- The longest operator that starts with `>`. -/
def scanShift (s : List Char) : Scan :=
  let m := ([">>>=", ">>>", ">>=", ">>", ">=", ">"].map String.toList).find? fun m => m.isPrefixOf s
  let m := m.getD []
  ⟨.mark (String.ofList m), m, s.drop m.length⟩

/-! ## Tokens -/

/-- The token at the front of a text that does not start with a gap. -/
def scanToken (s : List Char) : Scan :=
  match s with
  | [] => ⟨.endOfText, [], []⟩
  | c :: t =>
      if c == '"' || c == '\'' then scanString c t
      else if c == '`' then scanTemplate c t
      else if c.isDigit then scanNumber s
      else if c == '.' && (t.head?.map Char.isDigit).getD false then scanNumber s
      else if c == '#' then
        match scanWord t with
        | ⟨.word name _, lexeme, rest⟩ => ⟨.privateName name, c :: lexeme, rest⟩
        | ⟨_, lexeme, rest⟩ => ⟨.invalid, c :: lexeme, rest⟩
      else if isIdStart c || c == '\\' then scanWord s
      else scanMark s

/-! ## The other readings -/

/-- The characters of a regular expression up to its closing slash, which may
stand in a class of characters. -/
def splitRegex : (inClass : Bool) → List Char → Option (List Char × List Char)
  | _, [] => none
  | inClass, '\\' :: c :: s =>
      if isLineBreak c then none
      else (splitRegex inClass s).map fun (a, b) => ('\\' :: c :: a, b)
  | inClass, c :: s =>
      if isLineBreak c then none
      else if c == '/' && !inClass then some ([], s)
      else
        let inClass := if c == '[' then true else if c == ']' then false else inClass
        (splitRegex inClass s).map fun (a, b) => (c :: a, b)

/-- Whether the letters after a regular expression are flags, none of them twice. -/
def areFlags : List Char → Bool
  | [] => true
  | c :: s => "dgimsuvy".toList.contains c && !s.contains c && areFlags s

/-- A regular expression after its first slash: its pattern, its flags and the
text after it. -/
def scanRegex (s : List Char) : Option (String × String × List Char) := do
  let (pattern, rest) ← splitRegex false s
  let (flags, rest) := rest.span isIdPart
  if pattern.isEmpty || pattern.head? == some '*' || !areFlags flags then none
  else return (String.ofList pattern, String.ofList flags, rest)

/-- The text of an element up to the next tag or interpolation. -/
def scanElementText (s : List Char) : List Char × List Char :=
  s.span fun c => c != '<' && c != '{'

/-- An attribute string after its quote: its characters, none of them an escape,
and the text after the closing quote. -/
def scanElementString (quote : Char) (s : List Char) : Option (List Char × List Char) :=
  match s.span fun c => c != quote with
  | (body, _ :: rest) => some (body, rest)
  | _ => none

/-! ## The value of a number -/

/-- The number of digits in a base up to which a natural is not accumulated. -/
def exactDigits (base : Nat) : Nat := if base = 16 then 16 else if base = 8 then 21 else 64

/-- The number nearest to a natural of few digits in a base; one of more digits
is accumulated digit by digit in binary64 arithmetic. -/
def basedValue (base : Nat) (digits : List Char) : Float :=
  if digits.length ≤ exactDigits base then Number.nearest (Number.natOfDigits base digits) 1
  else digits.foldl (fun x c => x * Float.ofNat base + Float.ofNat (Number.digitValue c)) 0.0

/-- The number nearest to a decimal. -/
def decimalValue (digits : List Char) : Float :=
  ((Number.parseDecimal digits).map Number.Decimal.toFloat).getD 0.0

/-- The value of a number as it is written. -/
def numberValue (literal : String) : Float :=
  let digits := literal.toList.filter (· != '_')
  match digits with
  | '0' :: c :: rest =>
      match baseOf c with
      | some base => basedValue base rest
      | none =>
          if (c :: rest).all isOctalDigit then basedValue 8 (c :: rest)
          else decimalValue digits
  | _ => decimalValue digits

/-! ## Tests -/

example : decode false "a\\n\\u{41}".toList = some "a\nA".toList := by decide +kernel
example : decode true "\\1018\\9".toList = some "A89".toList ∧ decode false ['\\', '1'] = none := by
  decide +kernel
example : splitString '"' "ab\"c".toList = some ("ab".toList, "\"c".toList) := by decide
example : (scanNumber "1_0;".toList).token = .number "1_0" := by decide +kernel
example : (scanNumber "1__0".toList).token = .invalid := by decide +kernel
example : (scanNumber "017.5".toList).token = .number "017" ∧
    (scanNumber "018.5".toList).token = .number "018.5" := by decide +kernel
example : (scanMark "?.5".toList).token = .mark "?" := by decide +kernel

end StaticStyle.Syntax
