import StaticStyle.Css.Name
import StaticStyle.Css.Selector

/-!
# Conditions

What says when the rules of a block hold.  A condition is a row of terms that are all joined by
`and` or all by `or`, or a single term behind `not`.  A term is a condition or a feature in
parentheses, or a function.  A media query is a condition, or the name of a medium, which a
condition may follow behind `and`.
-/

namespace StaticStyle.Css

namespace Component

/-- The components that are no gaps. -/
def words (cs : List Component) : List Component := cs.filter fun c => !isGap c

/-- Whether a component is a name. -/
def isName (c : Component) : Bool := c.isToken .ident

/-- Whether a component is a keyword. -/
def isWord (keyword : String) : Component → Bool
  | .token t => t.kind == .ident && t.keyword == keyword
  | .block _ _ => false

/-- Whether a component is one of some functions. -/
def isFunction (isKnown : String → Bool) : Component → Bool
  | .token _ => false
  | .block o _ => o.kind == .function && isKnown o.keyword

/-- Whether a component is a pair of parentheses. -/
def isParens : Component → Bool
  | .token _ => false
  | .block o _ => o.kind == .opening '('

/-- The parts of a row of components between commas, or none if the row is empty. -/
def entries (cs : List Component) : List (List Component) :=
  if (words cs).isEmpty then [] else Selector.alternatives cs

end Component

namespace Condition

open Component (isGap isName isWord words)

/-- What the terms of a condition may be. -/
structure Terms where
  /-- Whether a function of a name is a term. -/
  isFunction : String → Bool
  /-- Whether components in parentheses are a term even if they are no condition. -/
  isFeature : List Component → Bool

/-- Where a condition is read. -/
inductive Point where
  /-- In front of the first term, which these words may join others to. -/
  | opening (joins : List String)
  /-- Behind `not`. -/
  | negated
  /-- Behind a word that joins terms. -/
  | joined (join : String)
  /-- Behind a term, which these words may join others to. -/
  | term (joins : List String)

/-- Whether a condition may end at a point. -/
def Point.isEnd : Point → Bool
  | .term _ => true
  | _ => false

/-- The words that join terms. -/
def joins : List String := ["and", "or"]

mutual

/-- Whether a component is a term of a condition. -/
def isTerm (terms : Terms) : Component → Bool
  | .token _ => false
  | .block o items =>
      if o.kind == .function then terms.isFunction o.keyword
      else o.kind == .opening '(' && (holds terms (.opening joins) items || terms.isFeature items)

/-- Whether components are what is left of a condition at a point. -/
def holds (terms : Terms) (point : Point) : List Component → Bool
  | [] => point.isEnd
  | c :: cs =>
      if isGap c then holds terms point cs
      else match point with
        | .opening joins =>
            if isWord "not" c then holds terms .negated cs
            else isTerm terms c && holds terms (.term joins) cs
        | .negated => isTerm terms c && holds terms (.term []) cs
        | .joined join => isTerm terms c && holds terms (.term [join]) cs
        | .term joins => joins.any fun join => isWord join c && holds terms (.joined join) cs

end

/-- Whether components are a condition. -/
def accepts (terms : Terms) (cs : List Component) : Bool := holds terms (.opening joins) cs

/-! ## Features -/

/-- Whether a component says how a feature and a value compare. -/
def isComparison (c : Component) : Bool :=
  [TokenKind.colon, .delimiter '<', .delimiter '>', .delimiter '='].any fun kind => c.isToken kind

/-- Whether components are a single name. -/
def isSingleName (cs : List Component) : Bool :=
  match words cs with
  | [c] => isName c
  | _ => false

/-- Whether components are a value that a feature is compared with. -/
def isValue (cs : List Component) : Bool := !(words cs).isEmpty && !cs.any isComparison

/-- Whether components are a feature: its name alone, with a value behind a colon, or compared
with a value on one side or on both. -/
def isFeature (cs : List Component) : Bool :=
  let (left, rest) := cs.span fun c => !isComparison c
  match rest with
  | [] => isSingleName left
  | c :: rest =>
      if c.isToken .colon then isSingleName left && isValue rest
      else
        let (middle, last) := (rest.dropWhile isComparison).span fun c => !isComparison c
        if last.isEmpty then
          isSingleName left && isValue middle || isValue left && isSingleName middle
        else isValue left && isSingleName middle && isValue (last.dropWhile isComparison)

/-! ## Media queries -/

/-- The terms of media queries. -/
def mediaTerms : Terms := ⟨fun _ => false, isFeature⟩

/-- The terms of conditions on containers. -/
def containerTerms : Terms := ⟨["style", "scroll-state"].contains, isFeature⟩

/-- The terms of conditions on what is supported, which may not be known. -/
def supportTerms : Terms := ⟨fun _ => true, fun _ => true⟩

/-- Whether a component is the name of a medium. -/
def isMedium (c : Component) : Bool :=
  isName c && !(["not", "only", "and", "or"].any fun w => isWord w c)

/-- Whether components are a media query that starts with the name of a medium. -/
def isMediumQuery (cs : List Component) : Bool :=
  match words cs with
  | [c] => isMedium c
  | c :: d :: rest => isMedium c && isWord "and" d && holds mediaTerms (.opening ["and"]) rest
  | [] => false

/-- Whether components are a media query. -/
def isMediaQuery (cs : List Component) : Bool :=
  accepts mediaTerms cs ||
    match words cs with
    | c :: rest => isMediumQuery (if isWord "not" c || isWord "only" c then rest else c :: rest)
    | [] => false

/-- Whether components are a list of media queries, which may be empty and may end with a comma. -/
def isMediaList (cs : List Component) : Bool :=
  let queries := Component.entries cs
  let isLastEmpty := queries.getLast?.any fun query => (words query).isEmpty
  (if isLastEmpty then queries.dropLast else queries).all isMediaQuery

/-- Whether components are a condition on a container, which may start with a name. -/
def isContainerQuery (cs : List Component) : Bool :=
  match words cs with
  | c :: rest =>
      accepts containerTerms (c :: rest) ||
        isMedium c && (rest.isEmpty || accepts containerTerms rest)
  | [] => false

example : isMediaList (Component.ofText
    "screen and (not (400px <= width < 700px)), not print".toList) = true := by decide +kernel
example : isMediaList (Component.ofText "(a) and (b) or (c)".toList) = false := by decide +kernel

end Condition

end StaticStyle.Css
