import StaticStyle.DevLoop
import StaticStyle.Proofs.Ordered
import StaticStyle.Proofs.Running

/-!
# Sessions

A session is a development loop together with the files that it works on.  What
happens in a session is a list of events in any order: the build is started again, a
module is served, or a file is written or removed.  Every change of a file is followed
by the update for that file.  Operations may fail; the session goes on with the state
that they leave behind.

`Session.Started` are the sessions whose first build has succeeded.
-/

namespace StaticStyle

/-- A development loop and the files of the project. -/
structure Session where
  /-- The files. -/
  files : Files
  /-- The state of the loop. -/
  loop : DevLoop
deriving Repr, Inhabited

/-- What happens in a session. -/
inductive Event where
  /-- The build is started again. -/
  | start
  /-- A module is asked for. -/
  | serve (code id : String)
  /-- A file is created or gets another text. -/
  | write (file text : String)
  /-- A file is removed. -/
  | remove (file : String)
deriving DecidableEq, Repr

/-- The file that an event changes. -/
def Event.file? : Event → Option String
  | .write file _ => some file
  | .remove file => some file
  | _ => none

namespace Session

/-- The session after the files have changed at one name. -/
def update (c : Config) (files : Files) (file : String) (s : Session) : Session :=
  ⟨files, ((DevLoop.update c files.view file).run s.loop).2⟩

/-- The session after an event. -/
def step (c : Config) (p : SheetParser) (s : Session) : Event → Session
  | .start => { s with loop := ((DevLoop.start c s.files.view).run s.loop).2 }
  | .serve code id => { s with loop := ((DevLoop.serve c p code id).run s.loop).2 }
  | .write file text => s.update c (s.files.put file text) file
  | .remove file => s.update c (s.files.erase file) file

/-- The session after some events. -/
def run (c : Config) (p : SheetParser) (s : Session) (events : List Event) : Session :=
  events.foldl (step c p) s

/-- The session on some files before anything has happened. -/
def unopened (files : Files) : Session := ⟨files, .initial⟩

/-- A new loop has been started on the files, and the build has succeeded. -/
def Started (c : Config) (s : Session) : Prop :=
  ∃ tally, (DevLoop.start c s.files.view).run DevLoop.initial = (.ok tally, s.loop)

/-- The session that starts with a build of some files. -/
def opened (c : Config) (files : Files) : Session :=
  ⟨files, ((DevLoop.start c files.view).run .initial).2⟩

variable {c : Config} {p : SheetParser} {s : Session}

theorem started_opened {files : Files}
    (h : ((DevLoop.start c files.view).run .initial).1.toOption.isSome = true) :
    Started c (opened c files) := by
  obtain ⟨tally, ht⟩ := Option.isSome_iff_exists.mp h
  exact ⟨tally, Running.run_of_toOption ht⟩

/-- An update without a change is the writing of the text that a file has. -/
theorem step_write_self {file text : String} (h : s.files.get? file = some text) :
    s.step c p (.write file text) = s.update c s.files file := by
  rw [step, Table.put_of_get? h]

/-- An update for a file that is not there is the removal of the file. -/
theorem step_remove_absent {file : String} (h : s.files.get? file = none) :
    s.step c p (.remove file) = s.update c s.files file := by
  rw [step, Table.erase_of_get? h]

theorem run_append (s : Session) (events events' : List Event) :
    s.run c p (events ++ events') = (s.run c p events).run c p events' :=
  List.foldl_append

/-- What every event keeps is kept by all of them. -/
theorem run_induction {P : Session → Prop} (h : P s)
    (step : ∀ s event, P s → P (s.step c p event)) (events : List Event) :
    P (s.run c p events) := by
  induction events generalizing s with
  | nil => exact h
  | cons event events ih => exact ih (step s event h)

end Session

end StaticStyle
