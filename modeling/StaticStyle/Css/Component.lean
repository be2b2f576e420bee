import StaticStyle.Css.Token

/-!
# Component values

The tokens of a stylesheet with brackets matched: a bracket and what it encloses
are one component.  A block that is open where the text ends is closed there.  A
closing bracket that closes nothing stays as a token.
-/

namespace StaticStyle.Css

/-- A token, or a bracket with what it encloses. -/
inductive Component where
  | token (t : Token)
  /-- The opening token and the components up to the closing one. -/
  | block (opening : Token) (items : List Component)
deriving Repr

/-- An opening token whose closing one has not been met. -/
structure Frame where
  /-- The opening token. -/
  opening : Token
  /-- The components in front of it, the last first. -/
  before : List Component

/-- The bracket that closes what a token opens. -/
def closer? (kind : TokenKind) : Option Char :=
  match kind with
  | .function => some ')'
  | .opening '(' => some ')'
  | .opening '[' => some ']'
  | .opening '{' => some '}'
  | _ => none

namespace Component

/-- The components with a frame closed, the last first. -/
def close (done : List Component) (f : Frame) : List Component :=
  .block f.opening done.reverse :: f.before

/-- The components of a row of tokens, given those that are done, the last first, and
the open frames, the innermost first. -/
def gather : List Token → (done : List Component) → List Frame → List Component
  | [], done, frames => (frames.foldl close done).reverse
  | t :: ts, done, frames =>
      match t.kind, frames with
      | .closing c, f :: outer =>
          if closer? f.opening.kind == some c then gather ts (close done f) outer
          else gather ts (.token t :: done) frames
      | kind, frames =>
          if (closer? kind).isSome then gather ts [] (⟨t, done⟩ :: frames)
          else gather ts (.token t :: done) frames

/-- The components of a text. -/
def ofText (s : List Char) : List Component := gather (tokens s) [] []

/-! ## Kinds -/

/-- The kind of a token, if the component is one. -/
def kind? : Component → Option TokenKind
  | .token t => some t.kind
  | .block _ _ => none

/-- Whether a component is a token of a kind. -/
def isToken (kind : TokenKind) (c : Component) : Bool := c.kind? == some kind

/-- Whether a component separates others and says nothing. -/
def isGap (c : Component) : Bool := c.isToken .blank || c.isToken .comment

/-- Whether a component is a block in braces. -/
def isBraces : Component → Bool
  | .block o _ => o.kind == .opening '{'
  | .token _ => false

/-- The components without gaps at either end. -/
def trim (cs : List Component) : List Component :=
  ((cs.dropWhile isGap).reverse.dropWhile isGap).reverse

/-! ## Faults -/

/-- Whether a token may stand in no value. -/
def isFaultyToken (t : Token) : Bool :=
  match t.kind with
  | .badString => true
  | .badUrl => true
  | .closing _ => true
  | _ => false

mutual

/-- Whether a component holds a token that may stand in no value. -/
def isFaulty : Component → Bool
  | .token t => isFaultyToken t
  | .block _ items => anyFaulty items

/-- Whether one of some components holds a token that may stand in no value. -/
def anyFaulty : List Component → Bool
  | [] => false
  | c :: cs => isFaulty c || anyFaulty cs

end

end Component

end StaticStyle.Css
