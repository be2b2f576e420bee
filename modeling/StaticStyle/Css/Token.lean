/-!
# Stylesheet tokens

The text of a stylesheet as a row of tokens.  A token keeps its text, so the
tokens of a stylesheet in a row are the stylesheet.  What ends early because the
text ends (a string, a comment, an address) is complete; a string that a line
break cuts off is not a string but a `badString`.
-/

namespace StaticStyle.Css

/-- What a token is. -/
inductive TokenKind where
  | blank
  | comment
  | ident
  /-- A name with an opening parenthesis. -/
  | function
  /-- A name after `@`. -/
  | atKeyword
  /-- A name after `#`; whether it could be a name on its own. -/
  | hash (isName : Bool)
  | string
  | badString
  | url
  | badUrl
  | number
  /-- `<!--` or `-->`. -/
  | outerComment
  | colon
  | semicolon
  | comma
  | opening (bracket : Char)
  | closing (bracket : Char)
  | delimiter (c : Char)
deriving DecidableEq, Repr

/-- A token with its text. -/
structure Token where
  kind : TokenKind
  text : List Char
deriving DecidableEq, Repr

/-! ## Characters -/

/-- Line breaks. -/
def isNewline (c : Char) : Bool := c == '\n' || c == '\r' || c == '\x0c'

/-- Blanks. -/
def isBlank (c : Char) : Bool := isNewline c || c == ' ' || c == '\t'

/-- Characters that may start a name. -/
def isNameStart (c : Char) : Bool := c.isAlpha || c == '_' || 0x80 ≤ c.toNat

/-- Characters that a name may go on with. -/
def isNameChar (c : Char) : Bool := isNameStart c || c.isDigit || c == '-'

/-- Whether a text starts with an escaped character. -/
def startsEscape : List Char → Bool
  | '\\' :: c :: _ => !isNewline c
  | _ => false

/-- Whether a text starts with a name. -/
def startsName : List Char → Bool
  | '-' :: '-' :: _ => true
  | '-' :: c :: s => isNameStart c || startsEscape (c :: s)
  | c :: s => isNameStart c || startsEscape (c :: s)
  | [] => false

/-- Whether a text starts with an unsigned number. -/
def startsDigits : List Char → Bool
  | '.' :: c :: _ => c.isDigit
  | c :: _ => c.isDigit
  | [] => false

/-- Whether a text starts with a number. -/
def startsNumber : List Char → Bool
  | '+' :: s => startsDigits s
  | '-' :: s => startsDigits s
  | s => startsDigits s

/-! ## Parts of tokens -/

/-- The characters of a name and the rest. -/
def spanName : List Char → List Char × List Char
  | '\\' :: c :: s =>
      if isNewline c then ([], '\\' :: c :: s)
      else
        let (name, rest) := spanName s
        ('\\' :: c :: name, rest)
  | c :: s =>
      if isNameChar c then
        let (name, rest) := spanName s
        (c :: name, rest)
      else ([], c :: s)
  | [] => ([], [])

/-- The rest of a string up to its quote, and whether it is one. -/
def spanString (quote : Char) : List Char → Bool × List Char × List Char
  | [] => (true, [], [])
  | '\\' :: c :: s =>
      let (good, text, rest) := spanString quote s
      (good, '\\' :: c :: text, rest)
  | c :: s =>
      if c = quote then (true, [c], s)
      else if isNewline c then (false, [], c :: s)
      else
        let (good, text, rest) := spanString quote s
        (good, c :: text, rest)

/-- The rest of a comment. -/
def spanComment : List Char → List Char × List Char
  | [] => ([], [])
  | '*' :: '/' :: s => (['*', '/'], s)
  | c :: s =>
      let (text, rest) := spanComment s
      (c :: text, rest)

/-- The rest of an address up to its parenthesis. -/
def spanUrl : List Char → List Char × List Char
  | [] => ([], [])
  | '\\' :: c :: s =>
      let (text, rest) := spanUrl s
      ('\\' :: c :: text, rest)
  | c :: s =>
      if c = ')' then ([c], s)
      else
        let (text, rest) := spanUrl s
        (c :: text, rest)

/-- Whether the text of an address, its parenthesis included, holds nothing that an
address may not hold: a quote, a parenthesis, or blanks in the middle. -/
def isCleanUrl (text : List Char) : Bool :=
  let body := ((if text.getLast? == some ')' then text.dropLast else text).dropWhile isBlank)
  let body := (body.reverse.dropWhile isBlank).reverse
  body.all fun c => !isBlank c && c != '"' && c != '\'' && c != '('

/-- The sign that a text starts with, and the rest. -/
def spanSign : List Char → List Char × List Char
  | '+' :: s => (['+'], s)
  | '-' :: s => (['-'], s)
  | s => ([], s)

/-- The fraction that a text starts with, and the rest. -/
def spanFraction : List Char → List Char × List Char
  | '.' :: c :: s =>
      if c.isDigit then
        let (digits, rest) := (c :: s).span Char.isDigit
        ('.' :: digits, rest)
      else ([], '.' :: c :: s)
  | s => ([], s)

/-- The exponent that a text starts with, and the rest. -/
def spanExponent : List Char → List Char × List Char
  | e :: s =>
      if e == 'e' || e == 'E' then
        let (sign, t) := spanSign s
        if t.head?.any Char.isDigit then
          let (digits, rest) := t.span Char.isDigit
          (e :: (sign ++ digits), rest)
        else ([], e :: s)
      else ([], e :: s)
  | [] => ([], [])

/-- The digits of a number with its sign, fraction and exponent, and the rest. -/
def spanNumber (s : List Char) : List Char × List Char :=
  let (sign, s) := spanSign s
  let (whole, s) := s.span Char.isDigit
  let (fraction, s) := spanFraction s
  let (exponent, s) := spanExponent s
  (sign ++ whole ++ fraction ++ exponent, s)

/-! ## Tokens -/

/-- The token that a text starts with a number, and the rest. -/
def numberToken (s : List Char) : Token × List Char :=
  let (digits, rest) := spanNumber s
  match rest with
  | '%' :: rest => (⟨.number, digits ++ ['%']⟩, rest)
  | rest =>
      if startsName rest then
        let (unit, rest) := spanName rest
        (⟨.number, digits ++ unit⟩, rest)
      else (⟨.number, digits⟩, rest)

/-- Whether a text starts with a string, behind any blanks. -/
def isQuoted (s : List Char) : Bool :=
  match s.dropWhile isBlank with
  | '"' :: _ => true
  | '\'' :: _ => true
  | _ => false

/-- The token that a text starts with a name, and the rest. -/
def nameToken (s : List Char) : Token × List Char :=
  let (name, rest) := spanName s
  match rest with
  | '(' :: rest =>
      if name.map Char.toLower == "url".toList && !isQuoted rest then
        let (text, rest) := spanUrl rest
        (⟨if isCleanUrl text then .url else .badUrl, name ++ '(' :: text⟩, rest)
      else (⟨.function, name ++ ['(']⟩, rest)
  | rest => (⟨.ident, name⟩, rest)

/-- A token of one character. -/
def charKind (c : Char) : TokenKind :=
  if c == ':' then .colon
  else if c == ';' then .semicolon
  else if c == ',' then .comma
  else if c == '(' || c == '[' || c == '{' then .opening c
  else if c == ')' || c == ']' || c == '}' then .closing c
  else .delimiter c

/-- The first token of a text that starts with no blank, string or comment, and the rest. -/
def otherToken (c : Char) (s : List Char) : Token × List Char :=
  if startsNumber (c :: s) then numberToken (c :: s)
  else if startsName (c :: s) then nameToken (c :: s)
  else if c == '@' && startsName s then
    let (name, rest) := spanName s
    (⟨.atKeyword, c :: name⟩, rest)
  else if c == '#' && (s.head?.any isNameChar || startsEscape s) then
    let (name, rest) := spanName s
    (⟨.hash (startsName s), c :: name⟩, rest)
  else (⟨charKind c, [c]⟩, s)

/-- The first token of a text that is not empty, and the rest. -/
def firstToken (c : Char) (s : List Char) : Token × List Char :=
  if isBlank c then
    let (blanks, rest) := s.span isBlank
    (⟨.blank, c :: blanks⟩, rest)
  else if c == '"' || c == '\'' then
    let (good, text, rest) := spanString c s
    (⟨if good then .string else .badString, c :: text⟩, rest)
  else match c, s with
    | '/', '*' :: rest =>
        let (text, rest) := spanComment rest
        (⟨.comment, '/' :: '*' :: text⟩, rest)
    | '<', '!' :: '-' :: '-' :: rest => (⟨.outerComment, "<!--".toList⟩, rest)
    | '-', '-' :: '>' :: rest => (⟨.outerComment, "-->".toList⟩, rest)
    | _, _ => otherToken c s

/-- The tokens of a text, at most so many. -/
def tokensWithin : (count : Nat) → List Char → List Token
  | count + 1, c :: s =>
      let (token, rest) := firstToken c s
      token :: tokensWithin count rest
  | _, _ => []

/-- The tokens of a text. -/
def tokens (s : List Char) : List Token := tokensWithin s.length s

example : (tokens ".1a".toList).map (·.kind) = [.number] := by decide
example : (tokens "a/**/:".toList).map (·.kind) = [.ident, .comment, .colon] := by decide

end StaticStyle.Css
