import StaticStyle.Script.Replacement
import StaticStyle.Sheet.Generation

/-!
# The development loop

A build that goes on while its files are edited.  It starts with a full scan.  Then
scripts are changed and stylesheets generated as they are asked for, and after
an edit `update` collects the styles of the file again and says which
stylesheets are out of date.

Invalid rules empty the registry.  The loop is then `stale` until a full scan
succeeds, which the next update or build brings about.  The stylesheets that have
been generated are remembered apart from the registry and outlive that.
-/

namespace StaticStyle

/-- Whether the generated stylesheets match the scripts. -/
inductive Freshness where
  | fresh
  /-- A script with styles has changed since. -/
  | potentiallyStale
  /-- The styles have been dropped. -/
  | stale
deriving DecidableEq, Repr

/-- The state of a development loop. -/
structure DevLoop where
  /-- The styles. -/
  registry : Registry
  /-- The stylesheets that have been generated. -/
  roots : Roll
  /-- Whether a script with styles has changed since a stylesheet was generated. -/
  pending : Bool
  /-- The unknown styles that have been reported, the oldest first. -/
  reports : List UnknownStyle
deriving Repr, Inhabited

/-- A computation of a development loop that may fail. -/
abbrev Developing := ExceptT StyleError (StateM DevLoop)

/-- What a module of the build becomes. -/
inductive Served where
  | script (output : ReplacedScript)
  | sheet (output : GeneratedSheet)
deriving DecidableEq, Repr

/-- What an update brings about. -/
structure Update where
  /-- Whether there was a full scan. -/
  rescanned : Bool
  /-- The stylesheets that are out of date. -/
  roots : List String
deriving DecidableEq, Repr

namespace DevLoop

/-- A loop that has not started. -/
def initial : DevLoop := ⟨.empty, [], false, []⟩

/-- Whether the generated stylesheets match the scripts. -/
def freshness (s : DevLoop) : Freshness :=
  if s.registry.stale then .stale
  else if s.pending then .potentiallyStale
  else .fresh

/-! ## Parts of the state -/

/-- Does something to the registry of the loop. -/
def onRegistry {α : Type} (x : Registering α) : Developing α := do
  let s ← get
  let (result, registry) := x.run s.registry
  set { s with registry }
  liftExcept result
where
  /-- An answer or a failure as a computation. -/
  liftExcept (result : Except StyleError α) : Developing α :=
    match result with
    | .ok a => return a
    | .error e => throw e

/-- Does something that reports unknown styles. -/
def withReports {α : Type} (x : Reporting α) : Developing α := do
  let s ← get
  let (result, reports) := x.run s.reports
  set { s with reports }
  onRegistry.liftExcept result

/-! ## Operations -/

/-- Starts the build, or starts it again. -/
def start (c : Config) (view : FileView) : Developing ScanTally := do
  let summary ← onRegistry (Scan.all c view)
  modify fun s => { s with pending := false }
  return summary

/-- The script of a file with class names in the place of its style calls. -/
def replaceCalls (c : Config) (code file : String) : Developing (Option ReplacedScript) := do
  withReports (Script.replaceCalls c (← get).registry code file)

/-- The stylesheet of a file with the rules of the registry. -/
def generate (c : Config) (p : SheetParser) (code file : String) : Developing GeneratedSheet :=
  onRegistry (Sheet.generate c p code file)

/-- What becomes of a module.  Nothing becomes of a stylesheet without a directive, of a
script without style calls or that is left alone, and of any other file. -/
def serve (c : Config) (p : SheetParser) (code id : String) :
    Developing (Option Served) := do
  match FileId.kindOf id with
  | .stylesheet =>
      if !Sheet.isRoot c code then return none
      let output ← generate c p code id
      modify fun s => { s with roots := s.roots.enrol id, pending := false }
      return some (.sheet output)
  | .script =>
      if c.excludes id then return none
      return (← replaceCalls c code id).map .script
  | .other => return none

/-- Collects the styles of a file again, or those of all files if the registry has been
emptied, and lists the stylesheets that are out of date. -/
def update (c : Config) (view : FileView) (file : String) : Developing Update := do
  let rescanned := (← get).registry.stale
  let changed ← if rescanned then (fun _ => true) <$> onRegistry (Scan.all c view)
    else onRegistry (Scan.file c view file)
  if !changed then return ⟨false, []⟩
  modify fun s => { s with pending := true }
  let s ← get
  return ⟨rescanned, s.roots.enrolAll s.registry.roots⟩

end DevLoop

end StaticStyle
