import StaticStyle.Config.Basic
import StaticStyle.Json.Reader

/-!
# Reading configurations

A configuration is written as an object with a member for each setting that is
given, or as an array with the first settings in their order.  A member that is
not known, one that is there twice and a value of another type are refused.

`Config.fault?` then looks at the values that no build can work with.
-/

namespace StaticStyle.Config

open StaticStyle.Expression (Level Limits)

/-! ## Records -/

/-- Whether no name of a list is there twice. -/
def isDistinct : List String → Bool
  | [] => true
  | n :: ns => !ns.contains n && isDistinct ns

/-- A value as the fields of a record with the given names. -/
def fields (names : List String) (v : Json) : Option (Table Json) :=
  match v with
  | .object members =>
      let keys := members.map (·.1)
      if keys.all names.contains && isDistinct keys then some members else none
  | .array items => if items.length ≤ names.length then some (names.zip items) else none
  | _ => none

/-- A field of a record, with the value that holds if it is not given. -/
def field {α : Type} (table : Table Json) (name : String) (otherwise : α) (read : Json → Option α) :
    Option α :=
  match table.get? name with
  | some v => read v
  | none => some otherwise

/-! ## Values -/

/-- A text. -/
def readText : Json → Option String
  | .string s => some s
  | _ => none

/-- A truth value. -/
def readBool : Json → Option Bool
  | .bool b => some b
  | _ => none

/-- A count. -/
def readCount : Json → Option Nat
  | .number (.integer n) => if 0 ≤ n then some n.toNat else none
  | _ => none

/-- A list of texts. -/
def readTexts : Json → Option (List String)
  | .array items => items.mapM readText
  | _ => none

/-- A theme; a null is none. -/
def readTheme : Json → Option (Option Json)
  | .null => some none
  | v => some (some v.distinct)

/-- One of some named choices: its name, or an object with its name and a null. -/
def readChoice {α : Type} (choices : List (String × α)) : Json → Option α
  | .string name => choices.lookup name
  | .object [(name, .null)] => choices.lookup name
  | _ => none

/-! ## Settings -/

/-- The names of the limits in their order. -/
def limitNames : List String := ["level", "timeoutMs", "maxSteps"]

/-- The levels of evaluation by name. -/
def levels : List (String × Level) :=
  [("literal", .literal), ("moduleConstants", .moduleConstants)]

/-- The limits of evaluation. -/
def readLimits (v : Json) : Option Limits := do
  let t ← fields limitNames v
  let level ← field t "level" Limits.default.level (readChoice levels)
  let timeoutMs ← field t "timeoutMs" Limits.default.timeoutMs readCount
  let maxSteps ← field t "maxSteps" Limits.default.maxSteps readCount
  return ⟨level, timeoutMs, maxSteps⟩

/-- The policies by name. -/
def policies : List (String × UnknownPolicy) :=
  [("abort", .abort), ("leaveUnresolved", .leaveUnresolved), ("substitute", .substitute)]

/-- The names of the settings in their order. -/
def settingNames : List String :=
  ["root", "theme", "classPrefix", "callee", "directive", "importSource", "eval", "unknownStyle",
   "exclude", "minify"]

/-- The settings that a value holds. -/
def readSettings (v : Json) : Option Config := do
  let t ← fields settingNames v
  let root ← field t "root" default.root readText
  let theme ← field t "theme" default.theme readTheme
  let classPrefix ← field t "classPrefix" default.classPrefix readText
  let callee ← field t "callee" default.callee readText
  let directive ← field t "directive" default.directive readText
  let importSource ← field t "importSource" default.importSource readText
  let limits ← field t "eval" default.limits readLimits
  let unknown ← field t "unknownStyle" default.unknown (readChoice policies)
  let exclude ← field t "exclude" default.exclude readTexts
  let minify ← field t "minify" default.minify readBool
  return { root, theme, classPrefix, callee, directive, importSource, limits, unknown, exclude,
           minify }

/-! ## Validity -/

/-- What no build can work with, if there is anything. -/
def fault? (c : Config) : Option String :=
  if c.classPrefix = "" then some "classPrefix must not be empty"
  else if Text.isAllBlank c.callee then some "callee must not be empty"
  else if Text.isAllBlank c.directive || c.directive.toList.head? == some '@' then
    some "directive must be a bare at-rule name such as `flow-css`"
  else if c.limits.timeoutMs = 0 then some "eval.timeoutMs must be positive"
  else none

/-- The configuration that a value holds. -/
def ofJson (v : Json) : Except StyleError Config :=
  match readSettings v with
  | none => .error .invalidConfig
  | some c =>
      match c.fault? with
      | some reason => .error (.rejectedConfig reason)
      | none => .ok c

/-- The configuration that a text holds. -/
def read (text : String) : Except StyleError Config :=
  match Json.read Json.maxDepth text with
  | none => .error .invalidConfig
  | some v => ofJson v

end StaticStyle.Config
