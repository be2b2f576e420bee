import StaticStyle.Number.Notation

/-!
# Styles

A style is a row of declarations and nested blocks in the order they were
written.  Keys may repeat, and nothing is merged.

`Style.canonicalText` writes a style as flat text: a declaration is
`property:value;` with the property named by `hyphenate`, a block is its
key, verbatim, with the inner style in braces.  The text is the canonical key of
a style, so two orders of the same declarations are different styles.
-/

namespace StaticStyle

/-- The value of a declaration. -/
inductive Style.Leaf where
  | text (s : String)
  | number (x : Float)
deriving Repr

/-- Declarations and nested blocks in order. -/
inductive Style where
  /-- The end of a style. -/
  | nil
  /-- A declaration in front of the rest. -/
  | leaf (key : String) (value : Style.Leaf) (rest : Style)
  /-- A nested block in front of the rest. -/
  | block (key : String) (inner : Style) (rest : Style)
deriving Repr, Inhabited

namespace Style

/-! ## Entries -/

/-- What stands under a key. -/
inductive Entry where
  | leaf (value : Leaf)
  | block (inner : Style)

/-- The number of declarations and blocks of a style, those inside its blocks
left out. -/
def length : Style → Nat
  | .nil => 0
  | .leaf _ _ rest => length rest + 1
  | .block _ _ rest => length rest + 1

/-- The first entry with a key. -/
def get? (key : String) : Style → Option Entry
  | .nil => none
  | .leaf k v rest => if k = key then some (.leaf v) else get? key rest
  | .block k inner rest => if k = key then some (.block inner) else get? key rest

/-! ## Property names -/

/-- Every capital as a hyphen and its small letter.  Only the ASCII letters count. -/
def hyphenateCapitals (key : List Char) : List Char :=
  key.flatMap fun c => if c.isUpper then ['-', c.toLower] else [c]

/-- A key as the name of a property.  A custom property stays as it is.  `ms` in
front of a capital is the mark of a vendor and gets a hyphen of its own. -/
def hyphenate (key : List Char) : List Char :=
  match key with
  | '-' :: '-' :: _ => key
  | 'm' :: 's' :: c :: rest =>
      if c.isUpper then '-' :: 'm' :: 's' :: hyphenateCapitals (c :: rest) else hyphenateCapitals key
  | _ => hyphenateCapitals key

/-! ## Serialization -/

/-- The text of a value. -/
def Leaf.render : Leaf → List Char
  | .text s => s.toList
  | .number x => (Number.render x).toList

/-- The characters of a style. -/
def write : Style → List Char
  | .nil => []
  | .leaf key value rest =>
      hyphenate key.toList ++ ':' :: value.render ++ ';' :: write rest
  | .block key inner rest =>
      key.toList ++ '{' :: write inner ++ '}' :: write rest

/-- The canonical text of a style. -/
def canonicalText (s : Style) : String := String.ofList s.write

/-! ## Tests -/

example : hyphenate "WebkitTransition".toList = "-webkit-transition".toList := by decide
example : hyphenate "msTransform".toList = "-ms-transform".toList := by decide
example : hyphenate "ms".toList = "ms".toList := by decide
example : hyphenate "--brandColor".toList = "--brandColor".toList := by decide
example : (Style.block "&:hover" (.leaf "fontSize" (.text "2px") .nil) .nil).write
    = "&:hover\x7bfont-size:2px;\x7d".toList := by decide

end Style

end StaticStyle
