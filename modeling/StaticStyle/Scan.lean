import StaticStyle.Files.View
import StaticStyle.Script.Rules

/-!
# Scans

Collecting the styles of scripts in the registry.  All calls of a script are
evaluated before anything is added, so a script with a fault adds nothing.  A full
scan goes through the scripts under the root in order and stops at the first
fault; what it has added by then stays.
-/

namespace StaticStyle

/-- A computation that may fail and that may change the registry either way. -/
abbrev Registering := ExceptT StyleError (StateM Registry)

/-- What a full scan has come across. -/
structure ScanTally where
  /-- The number of scripts. -/
  scanned : Nat
  /-- The number of scripts with style calls. -/
  withStyles : Nat
  /-- The number of styles in the registry. -/
  styles : Nat
deriving DecidableEq, Repr

namespace Scan

/-- Whether a file is a script. -/
def isScript (file : String) : Bool := FileId.kindOf file == .script

/-- Collects the styles of the text of a file.  The answer says whether there are
any. -/
def source (c : Config) (code file : String) : Registering Bool := do
  if !isScript file then return false
  let script ← (Script.read c.function code file : Except StyleError Script)
  let rules ← (script.rules c file : Except StyleError (List ClassRule))
  modify (Registry.addAll rules file)
  return !rules.isEmpty

/-- Collects the styles of a file. -/
def file (c : Config) (view : FileView) (path : String) : Registering Bool := do
  if !isScript path then return false
  let code ← (view.read path : Except StyleError String)
  source c code path

/-- Collects the styles of some files and counts those that have any. -/
def each (c : Config) (view : FileView) : List String → Registering Nat
  | [] => return 0
  | path :: paths => do
      let found ← file c view path
      let count ← each c view paths
      return if found then count + 1 else count

/-- Collects the styles of all scripts under the root. -/
def all (c : Config) (view : FileView) : Registering ScanTally := do
  let files ← (view.list c.root : Except StyleError (List String))
  let scripts := files.filter isScript
  let withStyles ← each c view scripts
  modify Registry.noteScan
  return ⟨scripts.length, withStyles, (← get).styles.length⟩

end Scan

end StaticStyle
