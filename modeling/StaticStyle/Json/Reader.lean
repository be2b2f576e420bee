import StaticStyle.Json.Value

/-!
# Reading JSON

`Json.read` reads the one value a text consists of.  The grammar is the strict
one: no comments, no trailing commas, no control characters in strings, and an
escaped surrogate only as half of a pair.  Arrays and objects may nest up to a
given depth, which is also what the recursion is on.

A number with a fraction or an exponent is read in two steps.  Its digits are
taken as a natural number as long as that fits into 64 bits, and the digits
after that only shift the scale.  The natural number is then rounded to a
binary64 number and scaled by a power of ten in binary64 arithmetic.  For up to
fifteen digits and small scales this is the nearest number; a number that
overflows is refused.
-/

namespace StaticStyle.Json

/-- A reader takes a value off the front of a text. -/
abbrev Reader (α : Type) := List Char → Option (α × List Char)

/-! ## Blanks and words -/

/-- The four characters that may stand between tokens. -/
def isGap (c : Char) : Bool := c == ' ' || c == '\t' || c == '\n' || c == '\r'

/-- The text without the gap at its front. -/
def skipGap (s : List Char) : List Char := s.dropWhile isGap

/-- Takes a fixed word off the front of a text. -/
def dropWord : (word : List Char) → List Char → Option (List Char)
  | [], s => some s
  | _ :: _, [] => none
  | w :: word, c :: s => if w == c then dropWord word s else none

/-! ## Strings -/

/-- The value of four hexadecimal digits. -/
def readHex4 : Reader Nat
  | a :: b :: c :: d :: s =>
      let digits := [a, b, c, d]
      if digits.all fun x => Number.digitValue x < 16 then
        some (Number.natOfDigits 16 digits, s)
      else none
  | _ => none

/-- The character of a simple escape. -/
def simpleEscape : Char → Option Char
  | '"' => some '"'
  | '\\' => some '\\'
  | '/' => some '/'
  | 'b' => some '\x08'
  | 'f' => some '\x0c'
  | 'n' => some '\n'
  | 'r' => some '\r'
  | 't' => some '\t'
  | _ => none

/-- An escaped code unit, the first of a surrogate pair taking the second with
it. -/
def readUnit (s : List Char) : Option (Char × List Char) := do
  let (high, s) ← readHex4 s
  if 0xD800 ≤ high && high < 0xDC00 then
    let s ← dropWord ['\\', 'u'] s
    let (low, s) ← readHex4 s
    if 0xDC00 ≤ low && low < 0xE000 then
      return (Char.ofNat (0x10000 + (high - 0xD800) * 0x400 + (low - 0xDC00)), s)
    else none
  else if 0xDC00 ≤ high && high < 0xE000 then none
  else return (Char.ofNat high, s)

/-- The characters of a string up to its closing quote.  `fuel` bounds their
number. -/
def readChars : (fuel : Nat) → (done : List Char) → Reader (List Char)
  | 0, _, _ => none
  | _, _, [] => none
  | fuel + 1, done, c :: s =>
      if c == '"' then some (done.reverse, s)
      else if c == '\\' then
        match s with
        | 'u' :: s => do
            let (x, s) ← readUnit s
            readChars fuel (x :: done) s
        | e :: s => do
            let x ← simpleEscape e
            readChars fuel (x :: done) s
        | [] => none
      else if c.toNat < 0x20 then none
      else readChars fuel (c :: done) s
termination_by structural fuel => fuel

/-- The rest of a string whose opening quote has been taken. -/
def readString : Reader String := fun s =>
  (readChars (s.length + 1) [] s).map fun (text, rest) => (String.ofList text, rest)

/-! ## Numbers -/

/-- The naturals below it are those that fit into 64 bits. -/
def wordLimit : Nat := 0x10000000000000000

/-- Digits read into a natural below `wordLimit`, together with the digits that
no longer fit. -/
def takeDigits (n : Nat) : List Char → Nat × List Char
  | [] => (n, [])
  | c :: s =>
      let next := n * 10 + Number.digitValue c
      if next < wordLimit then takeDigits next s else (n, c :: s)

/-- A natural below `wordLimit` scaled by a power of ten, in binary64
arithmetic.  Powers beyond `1e308` are applied in steps; `none` is an overflow. -/
def scaleBy (x : Float) (e : Int) : Option Float :=
  if x == 0.0 then some x
  else if 0 ≤ e then
    if e ≤ 308 then
      let y := x * Number.nearestDecimal 1 e
      if y.isInf then none else some y
    else none
  else if -308 ≤ e then some (x / Number.nearestDecimal 1 (-e))
  else
    let y := x / Number.nearestDecimal 1 308
    if e < -616 then some 0.0 else some (y / Number.nearestDecimal 1 (-e - 308))

/-- The digits at the front of a text, of which there must be some. -/
def readDigits : Reader (List Char) := fun s =>
  let (digits, rest) := s.span Char.isDigit
  if digits.isEmpty then none else some (digits, rest)

/-- The whole part of a number: no zero stands in front of other digits. -/
def readWhole : Reader (List Char)
  | '0' :: s => if (s.head?.map Char.isDigit).getD false then none else some (['0'], s)
  | s => readDigits s

/-- The fraction of a number, empty if there is no point. -/
def readFraction : Reader (List Char)
  | '.' :: s => readDigits s
  | s => some ([], s)

/-- The exponent of a number, if there is one. -/
def readExponent : Reader (Option Int)
  | c :: s =>
      if c == 'e' || c == 'E' then do
        let (negative, s) := Number.splitSign s
        let (digits, s) ← readDigits s
        let n : Int := Number.natOfDigits 10 digits
        return (some (if negative then -n else n), s)
      else some (none, c :: s)
  | [] => some (none, [])

/-- The number with the given parts. -/
def numeralOf (negative : Bool) (whole fraction : List Char) (exponent : Option Int) :
    Option Numeral :=
  let (n, unread) := takeDigits 0 whole
  let fits := unread.isEmpty
  if fits && fraction.isEmpty && exponent.isNone && (!negative || (0 < n && n ≤ wordLimit / 2)) then
    some (.integer (if negative then -(n : Int) else n))
  else
    let (m, lost) := if fits then takeDigits n fraction else (n, fraction)
    let scale : Int := unread.length - ((fraction.length : Int) - lost.length)
    (scaleBy (Number.nearest m 1) (scale + exponent.getD 0)).map fun x =>
      .real (if negative then -x else x)

/-- A number. -/
def readNumber : Reader Numeral := fun s => do
  let (negative, s) := match s with
    | '-' :: s => (true, s)
    | s => (false, s)
  let (whole, s) ← readWhole s
  let (fraction, s) ← readFraction s
  let (exponent, s) ← readExponent s
  let n ← numeralOf negative whole fraction exponent
  return (n, s)

/-! ## Values -/

/-- The items of an array after its first bracket, up to and with its last one.
`fuel` bounds their number. -/
def readItems (item : Reader Json) : (fuel : Nat) → (done : List Json) → Reader (List Json)
  | 0, _, _ => none
  | fuel + 1, done, s => do
      let (v, s) ← item (skipGap s)
      match skipGap s with
      | ',' :: s => readItems item fuel (v :: done) s
      | ']' :: s => return ((v :: done).reverse, s)
      | _ => none
termination_by structural fuel => fuel

/-- The members of an object after its first brace, up to and with its last one.
`fuel` bounds their number. -/
def readMembers (item : Reader Json) :
    (fuel : Nat) → (done : List (String × Json)) → Reader (List (String × Json))
  | 0, _, _ => none
  | fuel + 1, done, s => do
      let s ← dropWord ['"'] (skipGap s)
      let (key, s) ← readString s
      let s ← dropWord [':'] (skipGap s)
      let (v, s) ← item (skipGap s)
      match skipGap s with
      | ',' :: s => readMembers item fuel ((key, v) :: done) s
      | '}' :: s => return (((key, v) :: done).reverse, s)
      | _ => none
termination_by structural fuel => fuel

/-- A value with at most `depth` arrays and objects around one another. -/
def readValue : (depth : Nat) → Reader Json
  | depth, s => match s with
    | '"' :: s => (readString s).map fun (text, s) => (.string text, s)
    | 't' :: s => (dropWord "rue".toList s).map fun s => (.bool true, s)
    | 'f' :: s => (dropWord "alse".toList s).map fun s => (.bool false, s)
    | 'n' :: s => (dropWord "ull".toList s).map fun s => (.null, s)
    | '[' :: s => match depth with
        | 0 => none
        | depth + 1 => match skipGap s with
            | ']' :: s => some (.array [], s)
            | s => (readItems (readValue depth) s.length [] s).map fun (items, s) =>
                (.array items, s)
    | '{' :: s => match depth with
        | 0 => none
        | depth + 1 => match skipGap s with
            | '}' :: s => some (.object [], s)
            | s => (readMembers (readValue depth) s.length [] s).map fun (members, s) =>
                (.object members, s)
    | s => (readNumber s).map fun (n, s) => (.number n, s)
termination_by structural depth => depth

/-- The depth to which arrays and objects may nest in a configuration. -/
def maxDepth : Nat := 127

/-- Reads the one value a text consists of. -/
def read (depth : Nat) (text : String) : Option Json := do
  let (v, rest) ← readValue depth (skipGap text.toList)
  if (skipGap rest).isEmpty then return v else none

end StaticStyle.Json
