import StaticStyle.Script.Rules
import StaticStyle.Script.Removal
import StaticStyle.Text.Quoted

/-!
# Replacing style calls

The quoted class name of its style takes the place of each style call of a script.
When that leaves no reference to the style function, its imports are taken out as
well.

A call whose style is not registered is reported, and the policy of the build says
what becomes of it.  `judge` gives the verdict on one call; `replaceCalls` collects
the verdicts in the order of the calls and stops at the first error.
-/

namespace StaticStyle

open StaticStyle.Text (Edit splice quoted importExtent nameExtent)

/-- A declaration that was not registered, and the script it was found in. -/
structure UnknownStyle where
  file : String
  declaration : Declaration
deriving Repr

/-- A computation that may fail and that reports the unknown styles it meets. -/
abbrev Reporting := ExceptT StyleError (StateM (List UnknownStyle))

/-- A script without its style calls. -/
structure ReplacedScript where
  /-- The text of the script. -/
  code : String
  /-- The class names put in, in the order of the calls. -/
  classNames : List String
  /-- The number of calls left as they were. -/
  unresolved : Nat
deriving DecidableEq, Repr

namespace Script

/-- What becomes of a call: the class name to put in its place, or nothing. -/
def judge (c : Config) (registry : Registry) (file : String) (e : ClassRule) :
    Reporting (Option String) := do
  if registry.hasClass e.className then return some e.className
  modify (· ++ [⟨file, e.declaration⟩])
  match c.unknown with
  | .abort => throw (.unknownStyle file e.className e.key)
  | .leaveUnresolved => return none
  | .substitute => return some e.className

/-- The calls of a script with what becomes of them. -/
def judgeAll (c : Config) (registry : Registry) (script : Script) (file : String) :
    List StyleCall → Reporting (List (StyleCall × Option String))
  | [] => return []
  | call :: calls => do
      let e ← (script.ruleOf c file call : Except StyleError ClassRule)
      let verdict ← judge c registry file e
      return (call, verdict) :: (← judgeAll c registry script file calls)

/-- The edit that puts a class name in the place of a call. -/
def callEdit : StyleCall × Option String → Option Edit
  | (call, some className) => some ⟨call.span, quoted className.toList⟩
  | (_, none) => none

/-- The edit that takes out an import. -/
def importEdit (source : List Char) (i : StyleImport) : Option Edit :=
  if i.specifiers = 1 then (importExtent source i.declaration).map Edit.delete
  else (nameExtent source i.specifier).map Edit.delete

/-- The script with the verdicts on its calls carried out. -/
def carryOut (script : Script) (source : List Char)
    (verdicts : List (StyleCall × Option String)) : ReplacedScript :=
  let unresolved := verdicts.countP (·.2.isNone)
  let removals :=
    if unresolved = 0 ∧ script.strayReferences = 0 then script.imports.filterMap (importEdit source)
    else []
  { code := String.ofList
      ((splice source (verdicts.filterMap callEdit ++ removals)).getD source)
    classNames := verdicts.filterMap (·.2)
    unresolved }

/-- The script of a file with class names in the place of its style calls, or nothing
if it has no such call. -/
def replaceCalls (c : Config) (registry : Registry) (code file : String) :
    Reporting (Option ReplacedScript) := do
  let script ← (Script.read c.function code file : Except StyleError Script)
  if script.calls.isEmpty then return none
  let verdicts ← judgeAll c registry script file script.calls
  return some (script.carryOut code.toList verdicts)

end Script

end StaticStyle
