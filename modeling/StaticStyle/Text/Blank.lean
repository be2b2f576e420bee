/-!
# Blank characters

The characters that count as white space in style values, import lists and
stylesheet directives: the 25 code points with the Unicode property
`White_Space`.  `trimStart`, `trimEnd` and `trim` drop them from the ends of a
text.

The zero-width characters `U+200B` and `U+FEFF` are not blank.
-/

namespace StaticStyle.Text

/-! ## The property -/

/-- The code points with the Unicode property `White_Space`, as closed ranges. -/
def blankRanges : List (Nat × Nat) :=
  [(0x09, 0x0D), (0x20, 0x20), (0x85, 0x85), (0xA0, 0xA0), (0x1680, 0x1680),
   (0x2000, 0x200A), (0x2028, 0x2029), (0x202F, 0x202F), (0x205F, 0x205F), (0x3000, 0x3000)]

/-- A character is blank when its code point lies in one of the ranges. -/
def isBlank (c : Char) : Bool :=
  blankRanges.any fun r => r.1 ≤ c.toNat && c.toNat ≤ r.2

example : (blankRanges.map fun r => r.2 - r.1 + 1).sum = 25 := by decide

/-! ## Trimming -/

/-- The text without its leading blanks. -/
def trimStart (s : List Char) : List Char := s.dropWhile isBlank

/-- The text without its trailing blanks. -/
def trimEnd (s : List Char) : List Char := (s.reverse.dropWhile isBlank).reverse

/-- The text without the blanks at either end. -/
def trim (s : List Char) : List Char := trimEnd (trimStart s)

/-- Whether a text is empty or blank throughout. -/
def isAllBlank (s : String) : Bool := s.toList.all isBlank

example : trim " a b\t".toList = "a b".toList := by decide
example : trim "\u200Ba ".toList = "\u200Ba".toList := by decide

end StaticStyle.Text
