import StaticStyle.Css.AtRule
import StaticStyle.Sheet.Parser

/-!
# Stylesheets

Which texts are stylesheets.  A stylesheet is a row of rules: a selector with a
block, or an at-rule with a block or without.  The block of a selector holds
declarations, nested rules and at-rules.  A declaration needs a value, but neither
its name nor its value has to be known, and an at-rule does not have to be known.

`items` cuts a row of components into rules and declarations, `isSound` judges
them level by level, and `minified` writes them without what can be left out.

At the top the rules stand in order: the encoding first, layers that are only named next, then what
is imported, then namespaces, and all others last.  `Stage` says how far a stylesheet has come, and
`Item.mark` what an item does about it.
-/

namespace StaticStyle.Css

open Component (isGap isBraces trim anyFaulty)

/-! ## Items -/

/-- A part of a stylesheet or of a block. -/
inductive Item where
  /-- An at-rule by its name, with what follows the name and its block. -/
  | atRule (name : Token) (params : List Component) (block : Option (List Component))
  /-- A rule with a block. -/
  | rule (selector : List Component) (block : List Component)
  /-- A declaration. -/
  | declaration (name : Token) (value : List Component)
  /-- What is none of these. -/
  | broken
deriving Repr

/-- The name and the value of a declaration. -/
def declaration? (cs : List Component) : Option (Token × List Component) :=
  match cs with
  | .token name :: rest =>
      match rest.dropWhile isGap with
      | c :: value =>
          if name.kind == .ident && c.isToken .colon && !(trim value).isEmpty && !anyFaulty value
          then some (name, trim value)
          else none
      | [] => none
  | _ => none

/-- Whether a component ends an at-rule that has no block. -/
def isEnd (c : Component) : Bool := c.isToken .semicolon

/-- A rule with a block from the start of its selector on, and the rest. -/
def ruleItem (level : Level) (cs : List Component) : Item × List Component :=
  let (selector, rest) := cs.span fun c => !isBraces c && !(level.inRule && isEnd c)
  match rest with
  | .block _ items :: rest => (.rule (trim selector) items, rest)
  | _ => (.broken, [])

/-- An at-rule from its name on, and the rest. -/
def atItem (name : Token) (cs : List Component) : Item × List Component :=
  let (params, rest) := cs.span fun c => !isBraces c && !isEnd c
  match rest with
  | .block _ items :: rest => (.atRule name (trim params) (some items), rest)
  | _ :: rest => (.atRule name (trim params) none, rest)
  | [] => (.atRule name (trim params) none, [])

/-- A declaration, or a rule with a block where there is none, and the rest. -/
def blockItem (cs : List Component) : Item × List Component :=
  let (text, rest) := cs.span fun c => !isEnd c
  match declaration? text with
  | some (name, value) => (.declaration name value, rest.drop 1)
  | none => ruleItem .rule cs

/-- Whether a component may stand between items. -/
def isFiller (level : Level) (c : Component) : Bool :=
  isGap c ||
    match level with
    | .top => c.isToken .outerComment
    | _ => isEnd c

/-- The item that starts with a component, in front of the others, and the rest. -/
def nextItem (level : Level) (c : Component) (rest : List Component) : Item × List Component :=
  match c with
  | .token t =>
      if t.kind == .atKeyword then atItem t rest
      else if level.inRule && t.kind == .ident then blockItem (c :: rest)
      else ruleItem level (c :: rest)
  | .block _ _ => ruleItem level (c :: rest)

/-- The items of a row of components, at most so many. -/
def itemsWithin (level : Level) : (count : Nat) → List Component → List Item
  | 0, _ => []
  | count + 1, cs =>
      match cs.dropWhile (isFiller level) with
      | [] => []
      | c :: rest =>
          let (item, rest) := nextItem level c rest
          item :: itemsWithin level count rest

/-- The items of a row of components at a level. -/
def items (level : Level) (cs : List Component) : List Item :=
  itemsWithin level (cs.length + 1) cs

/-! ## Order -/

/-- How far a stylesheet has come, by what may still follow. -/
inductive Stage where
  /-- Nothing stands in front. -/
  | opening
  | start
  /-- Layers have been named. -/
  | layers
  /-- Stylesheets have been imported. -/
  | imports
  /-- Namespaces have been named. -/
  | namespaces
  /-- Only rules without a place of their own may follow. -/
  | body
deriving DecidableEq, Repr

/-- What an item of a stylesheet does about the order of the rules. -/
inductive Mark where
  /-- It says the encoding; whether it could do so in another place than the first. -/
  | charset (isString : Bool)
  /-- It names layers. -/
  | layers
  | imports
  | namespaces
  /-- It is an at-rule without a block that may stand in any place. -/
  | plain
  /-- Nothing with a place of its own may follow it. -/
  | rule
deriving DecidableEq, Repr

/-- The mark of an item. -/
def Item.mark : Item → Mark
  | .atRule name params block =>
      if name.keyword == "charset" then .charset (AtRule.isString params && block.isNone)
      else if block.isSome then .rule
      else if name.keyword == "import" then .imports
      else if name.keyword == "namespace" then .namespaces
      else if name.keyword == "layer" then .layers
      else .plain
  | _ => .rule

/-- A stage comes before another one. -/
instance : LE Stage := ⟨fun s t => s.ctorIdx ≤ t.ctorIdx⟩

instance (s t : Stage) : Decidable (s ≤ t) := inferInstanceAs (Decidable (s.ctorIdx ≤ t.ctorIdx))

/-- The stage behind a mark, if an item with that mark may stand at a stage. -/
def Stage.next? (stage : Stage) (mark : Mark) : Option Stage :=
  match mark with
  | .charset isString =>
      if stage = .opening then some .start else if isString then some stage else none
  | .layers => some (if stage ≤ .layers then .layers else .body)
  | .imports => if stage ≤ .imports then some .imports else none
  | .namespaces => if stage ≤ .namespaces then some .namespaces else none
  | .plain => some (if stage = .opening then .start else stage)
  | .rule => some .body

/-- Whether items with these marks may follow one another from a stage on. -/
def isOrdered (stage : Stage) (marks : List Mark) : Bool := (marks.foldlM Stage.next? stage).isSome

/-- The marks of a row of components at the top. -/
def marksOf (cs : List Component) : List Mark := (items .top cs).map Item.mark

/-! ## Validity -/

/-- Whether an item is a declaration. -/
def Item.isDeclaration : Item → Bool
  | .declaration _ _ => true
  | _ => false

/-- Whether an item is a declaration where there may be one, or an at-rule of one of some names with
nothing but declarations in its block. -/
def isBoxItem (declares : Bool) (names : List String) : Item → Bool
  | .declaration _ _ => declares
  | .atRule name params (some block) =>
      names.contains name.keyword && params.isEmpty && (items .rule block).all Item.isDeclaration
  | _ => false

/-- The value of a declaration with a name. -/
def Item.valueOf? (name : String) : Item → Option (List Component)
  | .declaration t value => if t.keyword == name then some value else none
  | _ => none

/-- Whether items describe a property: its syntax, whether it is inherited, and its value at first,
which only a property of any syntax does without. -/
def isProperty (row : List Item) : Bool :=
  let value? name := row.findSome? (Item.valueOf? name)
  row.all (fun item => ["syntax", "inherits", "initial-value"].any fun name =>
      (item.valueOf? name).isSome) &&
    (value? "syntax").any AtRule.isString &&
    (value? "inherits").any (fun value => value.any fun c => c.isWord "true" || c.isWord "false") &&
    ((value? "initial-value").isSome || (value? "syntax").any (AtRule.isStringOf "*"))

/-- Whether a block at a level holds what it may, given which rows of components are valid at which
level. -/
def isSoundBlock (level : Level) (isSoundRow : Level → List Component → Bool) (content : Content)
    (block : List Component) : Bool :=
  match content with
  | .items => isSoundRow level.inside block
  | .rule => isSoundRow .rule block
  | .boxes declares names => (items .rule block).all (isBoxItem declares names)
  | .property => isProperty (items .rule block)
  | .tokens => !anyFaulty block
  | .anything => true

/-- Whether an item is valid at a level, given which rows of components are valid at which level. -/
def isSoundItem (level : Level) (isSoundRow : Level → List Component → Bool) (item : Item) : Bool :=
  match item with
  | .atRule name params block =>
      match AtRule.known? level name.keyword with
      | none => false
      | some rule =>
          rule.takes params && match block with
            | none => rule.isBare params
            | some block =>
                (rule.content params).any fun content => isSoundBlock level isSoundRow content block
  | .rule selector block => Selector.isList level.inRule selector && isSoundRow .rule block
  | .declaration _ _ => true
  | .broken => false

/-- Whether a row of components at a level is made of valid items that nest at most to a depth. -/
def isSound (level : Level) : (depth : Nat) → List Component → Bool
  | 0, _ => false
  | depth + 1, cs =>
      (items level cs).all (isSoundItem level fun level row => isSound level depth row)

/-- Whether a text is a stylesheet. -/
def isSheet (s : List Char) : Bool :=
  let cs := Component.ofText s
  isSound .top (s.length + 1) cs && isOrdered .opening (marksOf cs)

/-! ## Minified text -/

/-- Whether a token needs no blank on the side where another token of this kind
stands. -/
def isTight (kind : Option TokenKind) : Bool :=
  match kind with
  | some .comma => true
  | some (.delimiter '>') => true
  | some (.delimiter '~') => true
  | _ => false

mutual

/-- The text of a component. -/
def printComponent : Component → List Char
  | .token t => if t.kind == .blank then [' '] else if t.kind == .comment then [] else t.text
  | .block o items => o.text ++ printComponents items ++ ((closer? o.kind).toList)

/-- The text of some components. -/
def printComponents : List Component → List Char
  | [] => []
  | c :: cs => printComponent c ++ printComponents cs

end

/-- Components without the blanks that can be left out and without comments; `before`
is what stands in front of them. -/
def squeeze (before : Option TokenKind) : List Component → List Component
  | [] => []
  | c :: cs =>
      if c.isToken .comment then squeeze before cs
      else if c.isToken .blank then
        let next := cs.find? fun d => !isGap d
        if isTight before || isTight (next.bind Component.kind?) || before == some .blank then
          squeeze before cs
        else c :: squeeze (some .blank) cs
      else c :: squeeze c.kind? cs

/-- The shortest text of a selector, a value or what follows the name of an at-rule. -/
def printShort (cs : List Component) : List Char :=
  printComponents (squeeze (some .comma) (trim cs))

/-- The texts of items in a row, with semicolons where they are needed. -/
def joinItems : List (Bool × List Char) → List Char
  | [] => []
  | [(_, text)] => text
  | (open_, text) :: rest => text ++ (if open_ then [';'] else []) ++ joinItems rest

/-- The level of what stands in the block of an at-rule. -/
def blockLevel (level : Level) (name : Token) (params : List Component) : Level :=
  match (AtRule.known? level name.keyword).bind fun rule => rule.content params with
  | some .items => level.inside
  | _ => .rule

/-- The minified text of an item, with the news whether a semicolon has to follow it if
another item does.  An empty rule has no text, and neither has the encoding. -/
def printItem (level : Level) (printBlock : Level → List Component → List Char) (item : Item) :
    Option (Bool × List Char) :=
  let braces (text : List Char) : List Char := '{' :: text ++ ['}']
  match item with
  | .atRule name params block =>
      let head := name.text ++ (if params.isEmpty then [] else [' ']) ++ printShort params
      if level = .top ∧ name.keyword = "charset" then none
      else match block with
        | none => some (true, head)
        | some block =>
            let text := printBlock (blockLevel level name params) block
            if text.isEmpty then none else some (false, head ++ braces text)
  | .rule selector block =>
      let text := printBlock .rule block
      if text.isEmpty then none else some (false, printShort selector ++ braces text)
  | .declaration name value => some (true, name.text ++ ':' :: printShort value)
  | .broken => none

/-- The minified texts of a row of components at a level that nest at most to a depth. -/
def printItems (level : Level) : (depth : Nat) → List Component → List (Bool × List Char)
  | 0, _ => []
  | depth + 1, cs =>
      (items level cs).filterMap
        (printItem level fun level row => joinItems (printItems level depth row))

/-- The minified text of a stylesheet. -/
def minified (s : List Char) : List Char :=
  let texts := printItems .top (s.length + 1) (Component.ofText s)
  joinItems texts ++ if texts.getLast?.any (·.1) then [';'] else []

/-! ## The parser -/

/-- Stylesheets as they are defined here. -/
def parser : SheetParser where
  fault? css := if isSheet css.toList then none else some "<css>"
  minify css :=
    if isSheet css.toList then .ok (String.ofList (minified css.toList)) else .error "<css>"

end StaticStyle.Css
