import StaticStyle.Proofs.DevLoop.Operations
import StaticStyle.Proofs.Registry.Log
import StaticStyle.Proofs.Scan.Gathered

/-!
# Histories of a development loop

Besides the operations of the loop itself, its parts can be used on their own: files are
scanned, scripts replaced and stylesheets generated apart from the loop, and the registry is
emptied from outside.  `DevLoop.Operation` are all of these, and `DevLoop.performAll` carries
them out one after the other.  The files may change between two operations, so each has its
own view of them.

What an operation does to the registry are some changes, which are known before it is
carried out (`DevLoop.changes`).  So the registry of a loop is what the log of all changes says
(`DevLoop.registry_performAll`), and every rule in this log is the one that its declaration
makes (`DevLoop.genuine_log`).
-/

namespace StaticStyle

open Running
open Registry (Change)

/-! ## Rules and declarations -/

namespace Registry

/-- A change adds no rule but the one that a declaration makes. -/
def Change.Genuine (naming : Naming) : Change → Prop
  | .add e _ => naming.ruleOf e.declaration = .ok e
  | _ => True

/-- A rule is what its declaration makes: it has the canonical text of the declaration, and the
class name of this text. -/
theorem ruleOf_declaration_iff {naming : Naming} {e : ClassRule} :
    naming.ruleOf e.declaration = .ok e ↔
      e.className = naming.classOf e.key ∧ e.declaration.canonicalKey naming.theme = .ok e.key := by
  obtain ⟨className, d, key⟩ := e
  unfold Naming.ruleOf
  cases d.canonicalKey naming.theme with
  | error fault => simp [Except.map]
  | ok key' =>
      simp only [Except.map, Except.ok.injEq, ClassRule.mk.injEq, true_and]
      constructor
      · rintro ⟨rfl, rfl⟩
        exact ⟨rfl, rfl⟩
      · rintro ⟨rfl, rfl⟩
        exact ⟨rfl, rfl⟩

end Registry

/-- The rules of a script are those that the declarations of its calls make. -/
theorem Script.ruleOf_declaration_of_rulesOf {c : Config} {code file : String}
    {rules : List ClassRule} (h : rulesOf c code file = .ok rules) :
    ∀ e ∈ rules, c.naming.ruleOf e.declaration = .ok e := by
  obtain ⟨script, -, hrules⟩ := rulesOf_eq_ok_iff.mp h
  intro e he
  obtain ⟨call, -, hcall⟩ := exists_of_forall₂ (rules_eq_ok_iff.mp hrules) he
  obtain ⟨d, -, key, hkey, rfl⟩ := ruleOf_eq_ok_iff.mp hcall
  exact Registry.ruleOf_declaration_iff.mpr ⟨rfl, hkey⟩

/-! ## Scans -/

namespace Scan

variable {c : Config} {view : FileView} {code path : String} {paths : List String}
  {rules : List ClassRule} {change : Change}

/-- The rules of a file are added, and a fault adds nothing. -/
def additionsOf (file : String) : Except StyleError (List ClassRule) → List Change
  | .ok rules => rules.map fun e => .add e file
  | .error _ => []

/-- The changes that the scan of a text makes. -/
def changesIn (c : Config) (code file : String) : List Change :=
  if isScript file then additionsOf file (Script.rulesOf c code file) else []

/-- The changes that the scan of a file makes. -/
def changesAt (c : Config) (view : FileView) (path : String) : List Change :=
  if isScript path then additionsOf path (rulesAt c view path) else []

/-- The changes that a full scan makes. -/
def changes (c : Config) (view : FileView) : List Change :=
  (found c view).map (fun pair => .add pair.1 pair.2) ++
    match ((all c view).run .empty).1 with
    | .ok _ => [.noteScan]
    | .error _ => []

theorem collect_eq_replay (file : String) (r : Registry)
    (answer : Except StyleError (List ClassRule)) :
    (collect file r answer).2 = r.replay (additionsOf file answer) := by
  cases answer with
  | error fault => rfl
  | ok rules =>
      rw [additionsOf, Registry.replay, List.foldl_map]
      rfl

theorem registry_source (c : Config) (code file : String) (r : Registry) :
    ((source c code file).run r).2 = r.replay (changesIn c code file) := by
  unfold changesIn
  cases hs : isScript file with
  | false =>
      simp only [source, hs, Bool.not_false, if_true]
      rfl
  | true =>
      rw [source_run hs, if_pos rfl]
      exact collect_eq_replay _ _ _

theorem registry_file (c : Config) (view : FileView) (path : String) (r : Registry) :
    ((file c view path).run r).2 = r.replay (changesAt c view path) := by
  unfold changesAt
  cases hs : isScript path with
  | false =>
      rw [file_run_other hs]
      rfl
  | true =>
      rw [file_run hs, if_pos rfl]
      exact collect_eq_replay _ _ _

theorem registry_all (c : Config) (view : FileView) (r : Registry) :
    ((all c view).run r).2 = r.replay (changes c view) := by
  unfold changes
  rw [Registry.replay_append, Registry.replay_additions]
  rcases all_cases c view with ⟨fault, hrun⟩ | ⟨scanned, withStyles, hrun⟩
  · rw [hrun, hrun]
    rfl
  · rw [hrun, hrun]
    rfl

theorem ruleOf_declaration_of_rulesAt (h : rulesAt c view path = .ok rules) :
    ∀ e ∈ rules, c.naming.ruleOf e.declaration = .ok e := by
  obtain ⟨code, -, hrules⟩ := bind_eq_ok_iff.mp h
  exact Script.ruleOf_declaration_of_rulesOf hrules

theorem genuine_additionsOf {answer : Except StyleError (List ClassRule)} {file : String}
    (h : ∀ rules, answer = .ok rules → ∀ e ∈ rules, c.naming.ruleOf e.declaration = .ok e) :
    ∀ change ∈ additionsOf file answer, change.Genuine c.naming := by
  cases answer with
  | error fault => exact nofun
  | ok rules =>
      intro change hchange
      obtain ⟨e, he, rfl⟩ := List.mem_map.mp hchange
      exact h rules rfl e he

theorem genuine_changesIn (c : Config) (code file : String) :
    ∀ change ∈ changesIn c code file, change.Genuine c.naming := by
  unfold changesIn
  split
  · exact genuine_additionsOf fun _ hrules => Script.ruleOf_declaration_of_rulesOf hrules
  · exact nofun

theorem genuine_changesAt (c : Config) (view : FileView) (path : String) :
    ∀ change ∈ changesAt c view path, change.Genuine c.naming := by
  unfold changesAt
  split
  · exact genuine_additionsOf fun _ hrules => ruleOf_declaration_of_rulesAt hrules
  · exact nofun

theorem genuine_changes (c : Config) (view : FileView) :
    ∀ change ∈ changes c view, change.Genuine c.naming := by
  intro change hchange
  rcases List.mem_append.mp hchange with hchange | hchange
  · obtain ⟨⟨e, path⟩, hpair, rfl⟩ := List.mem_map.mp hchange
    obtain ⟨-, rules, hrules, he⟩ := mem_found_iff.mp hpair
    exact ruleOf_declaration_of_rulesAt hrules e he
  · -- All that a scan does besides is to note that it has got to the end.
    split at hchange
    · rw [List.mem_singleton.mp hchange]
      trivial
    · cases hchange

end Scan

/-! ## Stylesheets -/

namespace Sheet

/-- The changes that generating a stylesheet makes to a registry with these rules. -/
def changes (c : Config) (p : SheetParser) (rules code file : String) : List Change :=
  match p.fault? code, p.fault? rules with
  | some _, _ => []
  | none, some _ => [.clear]
  | none, none => if isRoot c code then [.addRoot file] else []

theorem registry_generate (c : Config) (p : SheetParser) (code file : String) (r : Registry) :
    ((generate c p code file).run r).2 = r.replay (changes c p r.rules code file) := by
  unfold changes
  rcases generate_cases c p code file r with
    ⟨reason, hcode, hrun⟩ | ⟨reason, hcode, hrules, hrun⟩ | ⟨hcode, hrules, hrun⟩
  · rw [hrun, hcode]
    rfl
  · rw [hrun, hcode, hrules]
    rfl
  · rw [hrun, hcode, hrules]
    dsimp only [noteRoot]
    split
    · rfl
    · rfl

theorem genuine_changes (c : Config) (p : SheetParser) (rules code file : String) :
    ∀ change ∈ changes c p rules code file, change.Genuine c.naming := by
  intro change hchange
  unfold changes at hchange
  split at hchange
  · cases hchange
  · rw [List.mem_singleton.mp hchange]
    trivial
  · split at hchange
    · rw [List.mem_singleton.mp hchange]
      trivial
    · cases hchange

end Sheet

/-! ## Operations -/

namespace DevLoop

/-- What can be done with a loop and with its parts. -/
inductive Operation where
  /-- The build is started, or started again. -/
  | start (view : FileView)
  /-- A file has changed. -/
  | update (view : FileView) (file : String)
  /-- A module is asked for. -/
  | serve (code id : String)
  /-- All scripts are scanned. -/
  | scanAll (view : FileView)
  /-- A file is scanned. -/
  | scanFile (view : FileView) (file : String)
  /-- A text is scanned. -/
  | scanText (code file : String)
  /-- The calls of a script are replaced. -/
  | replaceCalls (code file : String)
  /-- A stylesheet is generated. -/
  | generate (code file : String)
  /-- The styles are dropped. -/
  | clear

/-- The loop after an operation, whether it succeeds or not. -/
def perform (c : Config) (p : SheetParser) (s : DevLoop) : Operation → DevLoop
  | .start view => ((start c view).run s).2
  | .update view file => ((update c view file).run s).2
  | .serve code id => ((serve c p code id).run s).2
  | .scanAll view => ((onRegistry (Scan.all c view)).run s).2
  | .scanFile view file => ((onRegistry (Scan.file c view file)).run s).2
  | .scanText code file => ((onRegistry (Scan.source c code file)).run s).2
  | .replaceCalls code file => ((DevLoop.replaceCalls c code file).run s).2
  | .generate code file => ((DevLoop.generate c p code file).run s).2
  | .clear => { s with registry := s.registry.clear }

/-- The loop after some operations. -/
def performAll (c : Config) (p : SheetParser) (s : DevLoop) (operations : List Operation) :
    DevLoop :=
  operations.foldl (perform c p) s

/-- The changes that an operation makes to the registry. -/
def changes (c : Config) (p : SheetParser) (s : DevLoop) : Operation → List Change
  | .start view => Scan.changes c view
  | .update view file =>
      if s.registry.stale then Scan.changes c view else Scan.changesAt c view file
  | .serve code id =>
      if FileId.kindOf id = .stylesheet ∧ Sheet.isRoot c code = true then
        Sheet.changes c p s.registry.rules code id
      else []
  | .scanAll view => Scan.changes c view
  | .scanFile view file => Scan.changesAt c view file
  | .scanText code file => Scan.changesIn c code file
  | .replaceCalls _ _ => []
  | .generate code file => Sheet.changes c p s.registry.rules code file
  | .clear => [.clear]

/-- The changes that some operations make to the registry, one after the other. -/
def log (c : Config) (p : SheetParser) : DevLoop → List Operation → List Change
  | _, [] => []
  | s, operation :: operations =>
      s.changes c p operation ++ log c p (s.perform c p operation) operations

variable {c : Config} {p : SheetParser} {s : DevLoop}

theorem replaceCalls_run (c : Config) (code file : String) (s : DevLoop) :
    (DevLoop.replaceCalls c code file).run s =
      (((Script.replaceCalls c s.registry code file).run s.reports).1,
        { s with reports := ((Script.replaceCalls c s.registry code file).run s.reports).2 }) := by
  rw [DevLoop.replaceCalls, run_bind, run_get]
  exact withReports_run _ s

theorem registry_serve_eq (c : Config) (p : SheetParser) (code id : String) (s : DevLoop) :
    ((serve c p code id).run s).2.registry =
      s.registry.replay (s.changes c p (.serve code id)) := by
  rw [changes]
  cases hk : FileId.kindOf id with
  | other =>
      rw [if_neg fun hsheet => by cases hsheet.1]
      simp only [serve, hk]
      rfl
  | script =>
      rw [if_neg fun hsheet => by cases hsheet.1]
      cases hx : c.excludes id with
      | true =>
          simp only [serve, hk, hx, if_true]
          rfl
      | false =>
          rw [serve_script_run hk hx]
          rfl
  | stylesheet =>
      cases hroot : Sheet.isRoot c code with
      | false =>
          rw [if_neg fun hsheet => by cases hsheet.2]
          simp only [serve, hk, hroot, Bool.not_false, if_true]
          rfl
      | true =>
          rw [if_pos ⟨rfl, rfl⟩, (serve_sheet_run hk hroot p s).2]
          exact Sheet.registry_generate c p code id s.registry

/-- What an operation does to the registry are its changes. -/
theorem registry_perform (c : Config) (p : SheetParser) (s : DevLoop) (operation : Operation) :
    (s.perform c p operation).registry = s.registry.replay (s.changes c p operation) := by
  cases operation with
  | start view => rw [perform, registry_start, changes, Scan.registry_all]
  | update view file =>
      rw [perform, registry_update, changes]
      split
      · exact Scan.registry_all c view s.registry
      · exact Scan.registry_file c view file s.registry
  | serve code id => exact registry_serve_eq c p code id s
  | scanAll view => rw [perform, onRegistry_run, changes, Scan.registry_all]
  | scanFile view file => rw [perform, onRegistry_run, changes, Scan.registry_file]
  | scanText code file => rw [perform, onRegistry_run, changes, Scan.registry_source]
  | replaceCalls code file =>
      rw [perform, replaceCalls_run]
      rfl
  | generate code file =>
      rw [perform, DevLoop.generate, onRegistry_run, changes, Sheet.registry_generate]
  | clear => rfl

/-- After any operations, the registry is what the log of their changes says. -/
theorem registry_performAll (c : Config) (p : SheetParser) (s : DevLoop)
    (operations : List Operation) :
    (s.performAll c p operations).registry = s.registry.replay (log c p s operations) := by
  induction operations generalizing s with
  | nil => rfl
  | cons operation operations ih =>
      rw [log, Registry.replay_append, ← registry_perform]
      exact ih _

theorem genuine_changes (c : Config) (p : SheetParser) (s : DevLoop) (operation : Operation) :
    ∀ change ∈ s.changes c p operation, change.Genuine c.naming := by
  cases operation with
  | start view => exact Scan.genuine_changes c view
  | update view file =>
      rw [changes]
      split
      · exact Scan.genuine_changes c view
      · exact Scan.genuine_changesAt c view file
  | serve code id =>
      rw [changes]
      split
      · exact Sheet.genuine_changes c p _ code id
      · exact nofun
  | scanAll view => exact Scan.genuine_changes c view
  | scanFile view file => exact Scan.genuine_changesAt c view file
  | scanText code file => exact Scan.genuine_changesIn c code file
  | replaceCalls code file => exact nofun
  | generate code file => exact Sheet.genuine_changes c p _ code file
  | clear =>
      intro change hchange
      rw [List.mem_singleton.mp hchange]
      trivial

/-- Every rule that has ever been added is the one that its declaration makes. -/
theorem genuine_log (c : Config) (p : SheetParser) (s : DevLoop) (operations : List Operation) :
    ∀ change ∈ log c p s operations, change.Genuine c.naming := by
  induction operations generalizing s with
  | nil => exact nofun
  | cons operation operations ih =>
      intro change hchange
      rcases List.mem_append.mp hchange with hchange | hchange
      · exact genuine_changes c p s operation change hchange
      · exact ih _ change hchange

end DevLoop

end StaticStyle
