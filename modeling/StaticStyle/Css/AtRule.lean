import StaticStyle.Css.Condition

/-!
# At-rules

What is known of the at-rules of a stylesheet, by their names: what may follow the name,
whether the rule can do without a block, and what its block holds.  An at-rule that is not known
may stand anywhere, with or without a block.

Which rules are known depends on where they stand: `@import`, for one, is known at the top only,
and `@font-face` may stand in no rule.
-/

namespace StaticStyle.Css

open Component (isName isWord isFunction isParens words entries anyFaulty)

/-- Where a row of items stands. -/
inductive Level where
  /-- At the top of the stylesheet. -/
  | top
  /-- In the block of an at-rule that groups rules. -/
  | group
  /-- In the block of a rule, or of an at-rule in there that groups rules. -/
  | rule
deriving DecidableEq, Repr

/-- Whether what stands at a level belongs to a rule. -/
def Level.inRule (level : Level) : Bool := level == .rule

/-- The level of the items that are grouped at a level. -/
def Level.inside (level : Level) : Level := if level.inRule then .rule else .group

/-- What the block of an at-rule holds. -/
inductive Content where
  /-- The items that the rule groups. -/
  | items
  /-- What the block of a rule holds. -/
  | rule
  /-- At-rules of these names with declarations in their blocks, and declarations if `declares`. -/
  | boxes (declares : Bool) (names : List String)
  /-- What describes a property. -/
  | property
  /-- Tokens that may stand in a value. -/
  | tokens
  /-- Whatever there is: what cannot be read is passed over. -/
  | anything
deriving DecidableEq, Repr

/-- What is known of the at-rules of a name. -/
structure AtRule where
  /-- Whether components may follow the name. -/
  takes : List Component → Bool
  /-- Whether the rule may stand without a block behind these components. -/
  isBare : List Component → Bool
  /-- What its block holds behind these components, if it may have one. -/
  content : List Component → Option Content

namespace AtRule

/-- An at-rule with a block. -/
def block (takes : List Component → Bool) (content : Content) : AtRule where
  takes params := !anyFaulty params && takes params
  isBare _ := false
  content _ := some content

/-- An at-rule without a block. -/
def statement (takes : List Component → Bool) : AtRule where
  takes params := !anyFaulty params && takes params
  isBare _ := true
  content _ := none

/-- An at-rule that is not known. -/
def unknown : AtRule where
  takes params := !anyFaulty params
  isBare _ := true
  content _ := some .tokens

/-! ## What follows the name -/

/-- Whether components are an address: a string, or an address of its own. -/
def isAddress (c : Component) : Bool :=
  c.isToken .string || c.isToken .url || isFunction (· == "url") c

/-- Whether components are a single string. -/
def isString (cs : List Component) : Bool :=
  match words cs with
  | [c] => c.isToken .string
  | _ => false

/-- Whether components are a single string with a text that needs no escapes. -/
def isStringOf (text : String) (cs : List Component) : Bool :=
  match words cs with
  | [.token t] =>
      t.kind == .string && t.text.tail.takeWhile (fun c => some c != t.text.head?) == text.toList
  | _ => false

/-- Whether components are names with dots between them and nothing else. -/
def isDotted : List Component → Bool
  | [c] => isName c
  | c :: dot :: cs => isName c && dot.isToken (.delimiter '.') && isDotted cs
  | [] => false

/-- Whether components are a list of the names of layers. -/
def isLayerList (cs : List Component) : Bool :=
  (entries cs).all fun entry => isDotted (Component.trim entry)

/-- Whether components say which layer a stylesheet is imported into. -/
def isLayer (c : Component) : Bool := isWord "layer" c || isFunction (· == "layer") c

/-- Whether components are what `@import` may be followed by: an address, a layer, a condition on what
is supported, and media queries. -/
def isImport (cs : List Component) : Bool :=
  match words cs with
  | c :: rest =>
      let rest := if rest.head?.any isLayer then rest.drop 1 else rest
      let rest := if rest.head?.any (isFunction (· == "supports")) then rest.drop 1 else rest
      isAddress c && Condition.isMediaList rest
  | [] => false

/-- Whether components are an address that may have a name in front of it. -/
def isNamespace (cs : List Component) : Bool :=
  match words cs with
  | [c] => isAddress c
  | [c, d] => isName c && isAddress d
  | _ => false

/-- Whether components are a single name that starts with two hyphens. -/
def isDashed (cs : List Component) : Bool :=
  match words cs with
  | [.token t] => t.kind == .ident && "--".toList.isPrefixOf (nameValue t.text)
  | _ => false

/-- Keywords that are values of every property. -/
def wideKeywords : List String :=
  ["initial", "inherit", "unset", "default", "revert", "revert-layer"]

/-- Whether components are a single name of the author's. -/
def isOwnName (cs : List Component) : Bool :=
  match words cs with
  | [c] => isName c && !wideKeywords.any fun w => isWord w c
  | _ => false

/-- Whether components are the name of some keyframes. -/
def isKeyframes (cs : List Component) : Bool :=
  isString cs || isOwnName cs && !(words cs).any (isWord "none")

/-- Whether components are the name of a family of fonts. -/
def isFamily (cs : List Component) : Bool :=
  isString cs || !(words cs).isEmpty && (words cs).all isName

/-- Whether components are states of pages, each behind a colon. -/
def isPageStates : List Component → Bool
  | [] => true
  | c :: d :: cs =>
      c.isToken .colon && (["left", "right", "first", "last", "blank"].any fun w => isWord w d) &&
        isPageStates cs
  | [_] => false

/-- Whether components are a selector of pages: a name, states, or both. -/
def isPage (cs : List Component) : Bool :=
  match Component.trim cs with
  | c :: rest => isPageStates (if isName c then rest else c :: rest)
  | [] => false

/-- Whether components are the bounds of a scope: where it starts, and behind `to` where it ends. -/
def isScope (cs : List Component) : Bool :=
  match words cs with
  | [] => true
  | [c] => isParens c
  | [c, d] => isWord "to" c && isParens d
  | [c, d, e] => isParens c && isWord "to" d && isParens e
  | _ => false

/-- Whether components are the function `url-prefix` with nothing or the empty string. -/
def isUrlPrefix (cs : List Component) : Bool :=
  match words cs with
  | [.block o items] =>
      o.kind == .function && o.keyword == "url-prefix" &&
        ((words items).isEmpty || isStringOf "" items)
  | _ => false

/-! ## Rules by their names -/

/-- The encoding of the stylesheet.  Whether it may stand where it does is a matter of the order of
the rules. -/
def charset : AtRule where
  takes _ := true
  isBare _ := true
  content _ := some .anything

/-- A layer with the items it groups, or, at a level that allows it, the order of some layers. -/
def layer (level : Level) : AtRule where
  takes params := !anyFaulty params && isLayerList params
  isBare params := !level.inRule && !params.isEmpty
  content params := if (entries params).length ≤ 1 then some .items else none

/-- The rules that may stand at every level. -/
def shared (level : Level) : List (String × AtRule) :=
  [("media", block Condition.isMediaList .items),
    ("supports", block (Condition.accepts Condition.supportTerms) .items),
    ("container", block Condition.isContainerQuery .items),
    ("layer", layer level),
    ("scope", block isScope .items),
    ("starting-style", block List.isEmpty .items),
    ("-moz-document", block isUrlPrefix .items)]

/-- The rules that are known at one level only. -/
def own : Level → List (String × AtRule)
  | .top =>
      [("charset", charset),
        ("import", statement isImport),
        ("namespace", statement isNamespace),
        ("property", block isDashed .property)]
  | .group => []
  | .rule => [("nest", block (Selector.isList true) .rule)]

/-- The boxes in the margins of a page. -/
def marginBoxes : List String :=
  ["top-left-corner", "top-left", "top-center", "top-right", "top-right-corner",
    "left-top", "left-middle", "left-bottom", "right-top", "right-middle", "right-bottom",
    "bottom-left-corner", "bottom-left", "bottom-center", "bottom-right", "bottom-right-corner"]

/-- The kinds of features that fonts have names for. -/
def fontFeatures : List String :=
  ["stylistic", "historical-forms", "styleset", "character-variant", "swash", "ornaments",
    "annotation"]

/-- The rules that may stand in no rule. -/
def outer : List (String × AtRule) :=
  [("font-face", block List.isEmpty .anything),
    ("font-feature-values",
      block (fun params => (entries params).all isFamily && !params.isEmpty)
        (.boxes false fontFeatures)),
    ("font-palette-values", block isDashed .anything),
    ("counter-style", block isOwnName (.boxes true [])),
    ("viewport", block List.isEmpty (.boxes true [])),
    ("-ms-viewport", block List.isEmpty (.boxes true [])),
    ("page", block (fun params => (entries params).all isPage) (.boxes true marginBoxes)),
    ("view-transition", block List.isEmpty .anything)] ++
  ["keyframes", "-webkit-keyframes", "-moz-keyframes", "-o-keyframes", "-ms-keyframes"].map
    fun name => (name, block isKeyframes .anything)

/-- What is known of the at-rules of a name at a level; nothing if they may not stand there. -/
def known? (level : Level) (name : String) : Option AtRule :=
  match (own level ++ shared level).lookup name with
  | some rule => some rule
  | none =>
      match outer.lookup name with
      | some rule => if level.inRule then none else some rule
      | none => some unknown

end AtRule

end StaticStyle.Css
