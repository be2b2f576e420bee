import StaticStyle.Css.Component

/-!
# Selectors

Which rows of components are lists of selectors.  A selector is a row of compounds
with combinators between them, and a compound is an element name, `&` or `*`
followed by classes, identifiers, attributes and pseudo-classes.  Inside another
rule a selector may start with a combinator.
-/

namespace StaticStyle.Css.Selector

open Component

/-- Whether a component is a combinator other than a blank. -/
def isCombinator (c : Component) : Bool :=
  [TokenKind.delimiter '>', .delimiter '+', .delimiter '~'].any fun k => c.isToken k

/-- Whether a component can stand for an element. -/
def isElement (c : Component) : Bool :=
  [TokenKind.ident, .delimiter '*', .delimiter '&'].any fun k => c.isToken k

/-- Whether a component can follow a colon. -/
def isPseudo : Component → Bool
  | .token t => t.kind == .ident
  | .block o items => o.kind == .function && !anyFaulty items

/-- Whether a component is the condition on an attribute. -/
def isAttribute : Component → Bool
  | .token _ => false
  | .block o items => o.kind == .opening '[' && !(trim items).isEmpty && !anyFaulty items

/-- The components after a part of a compound that is no element name. -/
def afterPart? : List Component → Option (List Component)
  | c :: cs =>
      if c.isToken (.delimiter '.') then
        match cs with
        | name :: rest => if name.isToken .ident then some rest else none
        | [] => none
      else if c.isToken (.hash true) || isAttribute c || c.isToken (.delimiter '&') then some cs
      else if c.isToken .colon then
        match cs with
        | d :: rest =>
            if isPseudo d then some rest
            else if d.isToken .colon then
              match rest with
              | e :: rest => if isPseudo e then some rest else none
              | [] => none
            else none
        | [] => none
      else none
  | [] => none

/-- The components after as many parts of a compound as there are, at most `count`. -/
def afterParts : (count : Nat) → List Component → List Component
  | 0, cs => cs
  | count + 1, cs =>
      match afterPart? cs with
      | some rest => afterParts count rest
      | none => cs

/-- The components after a compound. -/
def afterCompound? (cs : List Component) : Option (List Component) :=
  match cs with
  | c :: rest =>
      if isElement c then some (afterParts rest.length rest)
      else (afterPart? cs).map fun rest => afterParts rest.length rest
  | [] => none

/-- Whether components are a row of at most `count` compounds with combinators
between them. -/
def isRow : (count : Nat) → List Component → Bool
  | 0, _ => false
  | count + 1, cs =>
      match afterCompound? cs with
      | none => false
      | some rest =>
          match rest.dropWhile isGap with
          | [] => true
          | c :: after =>
              if isCombinator c then isRow count (after.dropWhile isGap)
              else (rest.head?.any isGap) && isRow count (c :: after)

/-- Whether components are a selector. -/
def isSelector (nested : Bool) (cs : List Component) : Bool :=
  match trim cs with
  | c :: rest =>
      if nested && isCombinator c then isRow cs.length (rest.dropWhile isGap)
      else isRow cs.length (c :: rest)
  | [] => false

/-- The parts of a row of components between commas. -/
def alternatives : List Component → List (List Component)
  | [] => [[]]
  | c :: cs =>
      if c.isToken .comma then [] :: alternatives cs
      else match alternatives cs with
        | p :: ps => (c :: p) :: ps
        | [] => [[c]]

/-- Whether components are a list of selectors. -/
def isList (nested : Bool) (cs : List Component) : Bool := (alternatives cs).all (isSelector nested)

end StaticStyle.Css.Selector
