import StaticStyle.Expression.Value

/-!
# Evaluation

The value of an expression among some local names and the constants of a module.

Each node costs one step of a budget and one level of nesting, and so does each
node of a constant where the constant is first referred to; its value is then
kept.  A constant whose initial value refers to it is found out when the
reference is met, because `Surroundings.resolving` lists the constants whose
values are being worked out.

One level is one step of `evaluateNode`, which takes the evaluation of the levels
below as an argument; `evaluateWithin` ties the knot by recursion on the number
of levels that are left.  Effects are limited to the budget and to the values
kept, so evaluation always ends.
-/

namespace StaticStyle

/-- What an expression may refer to. -/
structure Surroundings where
  /-- Local names with their values, the innermost first. -/
  locals : List (String × Value)
  /-- The constants of the module. -/
  constants : Constants
  /-- The constants whose values are being worked out. -/
  resolving : List String
  /-- Whether there is no time left. -/
  expired : Bool

/-- What an evaluation has used up and found out. -/
structure Progress where
  /-- The number of steps that are left. -/
  budget : Nat
  /-- The constants whose values are known. -/
  known : List (String × Value)

/-- A computation that may refer to names, uses up steps and may fail. -/
abbrev Evaluation := ReaderT Surroundings (StateT Progress (Except Malformation))

namespace Expression

/-- Uses up a step. -/
def step : Evaluation Unit := do
  let progress ← get
  if progress.budget = 0 || (← read).expired then throw .timedOut
  else set { progress with budget := progress.budget - 1 }

section

variable (evaluateInner : Expression → Evaluation Value)

/-- The value of a constant that is not known yet. -/
def resolve (name : String) (initial : Expression) : Evaluation Value := do
  if (← read).resolving.contains name then throw (.circular name)
  else
    let value ← withReader (fun s => { s with resolving := name :: s.resolving }) <|
      evaluateInner initial
    modify fun progress => { progress with known := (name, value) :: progress.known }
    return value

/-- The value of a name: of a local one if there is one, otherwise of a constant. -/
def lookUp (name : String) : Evaluation Value := do
  let surroundings ← read
  match surroundings.locals.lookup name with
  | some value => return value
  | none =>
      match (← get).known.lookup name with
      | some value => return value
      | none =>
          match surroundings.constants.get? name with
          | some initial => resolve evaluateInner name initial
          | none => throw (.unresolved name)

/-- The text of a key. -/
def evaluateKey : Key Expression → Evaluation String
  | .fixed name => return name
  | .computed e => return (← evaluateInner e).toText

/-- The entries that a part gives an object. -/
def evaluatePart : Part Expression → Evaluation (List (String × Value))
  | .entry key value => do
      let key ← evaluateKey evaluateInner key
      return [(key, ← evaluateInner value)]
  | .spread e => do
      match ← evaluateInner e with
      | .object entries => return entries
      | .undefined => return []
      | .null => return []
      | _ => throw .spreadOfOther

/-- The text of a template: its texts with the values between them. -/
def evaluateTemplate : List String → List Expression → Evaluation String
  | [], _ => return ""
  | [text], _ => return text
  | text :: texts, [] => return text ++ String.join texts
  | text :: texts, part :: parts => do
      let value ← evaluateInner part
      return text ++ value.toText ++ (← evaluateTemplate texts parts)

/-- The value of an expression by its outermost node. -/
def evaluateNode : Expression → Evaluation Value
  | .undefined => return .undefined
  | .null => return .null
  | .boolean b => return .boolean b
  | .number x => return .number x
  | .string s => return .string s
  | .template texts parts => return .string (← evaluateTemplate evaluateInner texts parts)
  | .array items => return .array (← items.mapM evaluateInner)
  | .object parts => return .object (← parts.mapM (evaluatePart evaluateInner)).flatten
  | .identifier name => lookUp evaluateInner name
  | .member owner key => do
      let owner ← evaluateInner owner
      let key ← evaluateKey evaluateInner key
      owner.property key
  | .conditional test whenTrue whenFalse => do
      if (← evaluateInner test).truthy then evaluateInner whenTrue
      else evaluateInner whenFalse
  | .unary op operand => return (← evaluateInner operand).unary op
  | .binary op left right => do
      let left ← evaluateInner left
      return left.binary op (← evaluateInner right)
  | .logical op left right => do
      let left ← evaluateInner left
      if left.settles op then return left else evaluateInner right

end

/-- The value of an expression that takes at most so many levels. -/
def evaluateWithin : (levels : Nat) → Expression → Evaluation Value
  | 0, _ => do step; throw .tooDeep
  | levels + 1, e => do step; evaluateNode (evaluateWithin levels) e

/-! ## Running -/

/-- How far the evaluation of a declaration may reach. -/
inductive Level where
  /-- To literals and the parameter of a theme function. -/
  | literal
  /-- Also to the constants at the top of the module. -/
  | moduleConstants
deriving DecidableEq, Repr, Inhabited

/-- The limits of an evaluation. -/
structure Limits where
  /-- How far it may reach. -/
  level : Level
  /-- How long it may take.  No time at all is always too little. -/
  timeoutMs : Nat
  /-- How many nodes it may evaluate. -/
  maxSteps : Nat
deriving DecidableEq, Repr, Inhabited

/-- The limits that hold unless others are given. -/
def Limits.default : Limits := ⟨.literal, 1000, 100000⟩

/-- The constants that an evaluation at a level can see. -/
def Level.restrict : Level → Constants → Constants
  | .literal, _ => []
  | .moduleConstants, constants => constants

/-- The value of an expression among local names and constants. -/
def evaluate (e : Expression) (locals : List (String × Value)) (constants : Constants) (limits : Limits) :
    Except Malformation Value :=
  let surroundings : Surroundings := ⟨locals, constants, [], limits.timeoutMs == 0⟩
  let start : Progress := ⟨limits.maxSteps, []⟩
  ((evaluateWithin maxNesting e).run surroundings).run' start

/-! ## Tests -/

/-- A constant may refer to another, but not to itself. -/
example : (evaluate (.identifier "a") []
      [("a", .binary .add (.string "x") (.identifier "b")), ("b", .string "y")] .default).map Value.toText
    = .ok "xy" := by cbv
example : (evaluate (.identifier "a") [] [("a", .identifier "b"), ("b", .identifier "a")] .default).map Value.toText
    = .error (.circular "a") := by cbv
example : (evaluate (.unary .not .null) [] [] ⟨.literal, 1000, 1⟩).map Value.toText
    = .error .timedOut := by cbv

end Expression

end StaticStyle
