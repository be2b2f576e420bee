import StaticStyle.Proofs.DevLoop.Serving
import StaticStyle.Proofs.Scan.Gathered
import StaticStyle.Proofs.Session.Completeness

/-!
# Recovery from invalid rules

Invalid rules empty the registry, and from then on every change of a file brings about a full
scan until one succeeds.  A scan that fails leaves what it has found by then, and the next
one adds to it.  So what the registry holds in the end is what the failed scans have found
(`Session.rescanned`), in the order in which they found it, and then what the successful one
has found.

`Session.recovered_iff` compares that with a new session on the same files.  The registry has
every entry of the new session and, beyond these, nothing but what a failed scan has left.
It is the same, order included, exactly if what the failed scans have left is a front part
of what the new session has.  If a script changes after a failed scan has got through it,
this need not be so (`Session.recovered_with_leftover`).
-/

namespace StaticStyle

/-- Whether an event has files scanned. -/
def Event.rescans : Event → Bool
  | .serve _ _ => false
  | _ => true

/-- A full scan does not make a registry stale. -/
theorem Scan.stale_all {c : Config} {view : FileView} {r : Registry} (h : r.stale = false) :
    ((Scan.all c view).run r).2.stale = false := by
  rcases Scan.all_cases c view with ⟨fault, hrun⟩ | ⟨scanned, withStyles, hrun⟩
  · rw [hrun, Registry.stale_addEach]
    exact h
  · rw [hrun]
    rfl

namespace Session

variable {c : Config} {p : SheetParser} {s : Session} {files : Files} {event : Event}
  {events : List Event}

/-! ## Rescans -/

/-- What full scans after each of some events find, one scan after the other. -/
def rescanned (c : Config) (p : SheetParser) : Session → List Event → List (ClassRule × String)
  | _, [] => []
  | s, event :: events =>
      Scan.found c (s.step c p event).files.view ++ rescanned c p (s.step c p event) events

/-- What has been found has been found by the scan after some event. -/
theorem exists_of_mem_rescanned {pair : ClassRule × String} (h : pair ∈ s.rescanned c p events) :
    ∃ before, before ≠ [] ∧ before <+: events ∧
      pair ∈ Scan.found c (s.run c p before).files.view := by
  induction events generalizing s with
  | nil => cases h
  | cons event events ih =>
      rcases List.mem_append.mp h with hfirst | hrest
      · exact ⟨[event], List.cons_ne_nil _ _, ⟨events, rfl⟩, hfirst⟩
      · obtain ⟨before, _, ⟨after, rfl⟩, hfound⟩ := ih hrest
        exact ⟨event :: before, List.cons_ne_nil _ _, ⟨after, rfl⟩, hfound⟩

/-- Once the styles have been dropped, every change of a file and every build is a full scan. -/
theorem registry_step_of_stale (hevent : event.rescans = true)
    (hstale : s.loop.registry.stale = true) :
    (s.step c p event).loop.registry =
      ((Scan.all c (s.step c p event).files.view).run s.loop.registry).2 := by
  cases event with
  | serve code id => cases hevent
  | start => exact DevLoop.registry_start c s.files.view s.loop
  | write file text =>
      rw [Session.step, Session.update, DevLoop.registry_update, if_pos hstale]
  | remove file =>
      rw [Session.step, Session.update, DevLoop.registry_update, if_pos hstale]

/-- No scan drops the styles. -/
theorem stale_step (hevent : event.rescans = true) (h : s.loop.registry.stale = false) :
    (s.step c p event).loop.registry.stale = false := by
  have hupdate : ∀ files file, (s.update c files file).loop.registry.stale = false := by
    intro files file
    rw [Session.update, DevLoop.registry_update, if_neg (by rw [h]; exact Bool.false_ne_true),
      Scan.stale_file]
    exact h
  cases event with
  | serve code id => cases hevent
  | start =>
      rw [Session.step, DevLoop.registry_start]
      exact Scan.stale_all h
  | write file text => exact hupdate _ file
  | remove file => exact hupdate _ file

theorem stale_run (hevents : ∀ event ∈ events, event.rescans = true)
    (h : s.loop.registry.stale = false) : (s.run c p events).loop.registry.stale = false := by
  induction events generalizing s with
  | nil => exact h
  | cons event events ih =>
      exact ih (fun e he => hevents e (List.mem_cons_of_mem _ he))
        (stale_step (hevents event List.mem_cons_self) h)

/-- As long as no scan succeeds, the registry holds what the scans have found. -/
theorem registry_run_of_stale (hevents : ∀ event ∈ events, event.rescans = true)
    (hstale : s.loop.registry.stale = true)
    (hend : (s.run c p events).loop.registry.stale = true) :
    (s.run c p events).loop.registry = s.loop.registry.addEach (s.rescanned c p events) := by
  induction events generalizing s with
  | nil => rfl
  | cons event events ih =>
      have hevent := hevents event List.mem_cons_self
      have hrest : ∀ e ∈ events, e.rescans = true :=
        fun e he => hevents e (List.mem_cons_of_mem _ he)
      have hstep : (s.step c p event).loop.registry.stale = true := by
        by_contra hfresh
        rw [Bool.not_eq_true] at hfresh
        have hstays := stale_run hrest hfresh (c := c) (p := p)
        change ((s.step c p event).run c p events).loop.registry.stale = true at hend
        rw [hend] at hstays
        cases hstays
      have hregistry := registry_step_of_stale hevent hstale (c := c) (p := p)
      rcases Scan.all_cases c (s.step c p event).files.view with
        ⟨fault, hrun⟩ | ⟨scanned, withStyles, hrun⟩
      · rw [hrun] at hregistry
        dsimp only at hregistry
        rw [rescanned, Registry.addEach_append, ← hregistry]
        exact ih hrest hstep hend
      · -- A scan that succeeds would have made up for the styles that were dropped.
        rw [hrun] at hregistry
        rw [hregistry] at hstep
        cases hstep

/-! ## New sessions -/

/-- The registry of a new session holds what the scan of its files finds. -/
theorem registry_opened (c : Config) (files : Files) :
    (opened c files).loop.registry.styles =
        (Registry.empty.addEach (Scan.found c files.view)).styles ∧
      (opened c files).loop.registry.dependencies =
        (Registry.empty.addEach (Scan.found c files.view)).dependencies := by
  rw [opened, DevLoop.registry_start]
  rcases Scan.all_cases c files.view with ⟨fault, hrun⟩ | ⟨scanned, withStyles, hrun⟩
  · exact ⟨congrArg (·.2.styles) (hrun .empty), congrArg (·.2.dependencies) (hrun .empty)⟩
  · exact ⟨congrArg (·.2.styles) (hrun .empty), congrArg (·.2.dependencies) (hrun .empty)⟩

/-! ## Recovery -/

variable {code id reason rules className : String} {edits : List Event} {last : Event}
  {left now : Session}

/-- The registry of a new session on the files of another. -/
def rebuilt (c : Config) (s : Session) : Registry := (opened c s.files).loop.registry

/-- Rules that are refused leave the empty registry. -/
theorem registry_step_of_invalidRules
    (h : ((DevLoop.serve c p code id).run s.loop).1 = .error (.invalidRules reason rules)) :
    (s.step c p (.serve code id)).loop.registry = s.loop.registry.clear :=
  DevLoop.registry_of_invalidRules h

/-- After the first scan that succeeds, the registry holds what the scans have found since it was
emptied, those that have failed and then this one. -/
theorem registry_of_recovered
    (hinvalid : ((DevLoop.serve c p code id).run s.loop).1 = .error (.invalidRules reason rules))
    (hedits : ∀ event ∈ edits, event.rescans = true) (hlast : last.rescans = true)
    (hleft : left = (s.step c p (.serve code id)).run c p edits)
    (hstale : left.loop.freshness = .stale) (hnow : now = left.step c p last)
    (hfresh : now.loop.freshness ≠ .stale) :
    left.loop.registry =
        s.loop.registry.clear.addEach ((s.step c p (.serve code id)).rescanned c p edits) ∧
      now.loop.registry = (left.loop.registry.addEach (Scan.found c now.files.view)).noteScan ∧
      Started c (opened c now.files) := by
  have hclear := registry_step_of_invalidRules hinvalid
  rw [DevLoop.freshness_eq_stale_iff] at hstale
  rw [ne_eq, DevLoop.freshness_eq_stale_iff] at hfresh
  have hstart : (s.step c p (.serve code id)).loop.registry.stale = true := by
    rw [hclear]
    rfl
  have hscan := registry_step_of_stale hlast hstale (c := c) (p := p)
  rw [← hnow] at hscan
  rcases Scan.all_cases c now.files.view with ⟨fault, hrun⟩ | ⟨scanned, withStyles, hrun⟩
  · rw [hrun] at hscan
    dsimp only at hscan
    rw [hscan, Registry.stale_addEach] at hfresh
    exact absurd hstale hfresh
  · refine ⟨?_, ?_, started_of_all (congrArg Prod.fst (hrun left.loop.registry))⟩
    · rw [hleft] at hstale ⊢
      rw [registry_run_of_stale hedits hstart hstale, hclear]
    · rw [hscan, hrun]

/-- A registry that was emptied has, after the first scan that succeeds, every entry of a new
session, beyond these only what a failed scan has left, and the same in the same order exactly
if what the failed scans have left is a front part of what the new session has. -/
theorem recovered_iff
    (hinvalid : ((DevLoop.serve c p code id).run s.loop).1 = .error (.invalidRules reason rules))
    (hedits : ∀ event ∈ edits, event.rescans = true) (hlast : last.rescans = true)
    (hleft : left = (s.step c p (.serve code id)).run c p edits)
    (hstale : left.loop.freshness = .stale) (hnow : now = left.step c p last)
    (hfresh : now.loop.freshness ≠ .stale) :
    Started c (opened c now.files) ∧
      (∀ className e, (now.rebuilt c).style? className = some e →
        now.loop.registry.style? className = some e) ∧
      (∀ path ∈ (now.rebuilt c).dependencies, path ∈ now.loop.registry.dependencies) ∧
      (∀ className e, now.loop.registry.style? className = some e →
        (now.rebuilt c).style? className = some e ∨
          ∃ before path, before ≠ [] ∧ before <+: edits ∧ (e, path) ∈
            Scan.found c ((s.step c p (.serve code id)).run c p before).files.view) ∧
      (∀ path ∈ now.loop.registry.dependencies, path ∈ (now.rebuilt c).dependencies ∨
        ∃ before e, before ≠ [] ∧ before <+: edits ∧ (e, path) ∈
          Scan.found c ((s.step c p (.serve code id)).run c p before).files.view) ∧
      (now.loop.registry.styles = (now.rebuilt c).styles ↔
        left.loop.registry.styles.names <+: (now.rebuilt c).styles.names) ∧
      (now.loop.registry.dependencies = (now.rebuilt c).dependencies ↔
        left.loop.registry.dependencies <+: (now.rebuilt c).dependencies) := by
  obtain ⟨hold, hnew, hstarted⟩ :=
    registry_of_recovered hinvalid hedits hlast hleft hstale hnow hfresh
  obtain ⟨hstyles, hdependencies⟩ := registry_opened c now.files
  have hget : ∀ className, now.loop.registry.style? className =
      ((now.rebuilt c).style? className).or (left.loop.registry.style? className) := by
    intro className
    rw [hnew, Registry.style?, Registry.noteScan, rebuilt, Registry.style?, hstyles]
    exact Registry.style?_addEach _ _ _
  have hmem : ∀ path, path ∈ now.loop.registry.dependencies ↔
      path ∈ left.loop.registry.dependencies ∨ path ∈ (now.rebuilt c).dependencies := by
    intro path
    rw [hnew, Registry.noteScan, Registry.mem_dependencies_addEach, rebuilt, hdependencies,
      Registry.mem_dependencies_addEach]
    simp [Registry.empty]
  refine ⟨hstarted, ?_, ?_, ?_, ?_, ?_, ?_⟩
  · intro className e he
    rw [hget, he, Option.some_or]
  · intro path hpath
    exact (hmem path).mpr (Or.inr hpath)
  · intro className e he
    rw [hget, Option.or_eq_some_iff] at he
    rcases he with he | ⟨-, he⟩
    · exact Or.inl he
    · rw [hold, Registry.style?_addEach, Option.or_eq_some_iff] at he
      rcases he with he | ⟨-, he⟩
      · obtain ⟨path, hpath⟩ := Registry.exists_of_style?_addEach he
        obtain ⟨before, hne, hfront, hfound⟩ := exists_of_mem_rescanned hpath
        exact Or.inr ⟨before, path, hne, hfront, hfound⟩
      · cases he
  · intro path hpath
    rcases (hmem path).mp hpath with h | h
    · rw [hold, Registry.mem_dependencies_addEach] at h
      rcases h with h | ⟨e, he⟩
      · cases h
      · obtain ⟨before, hne, hfront, hfound⟩ := exists_of_mem_rescanned he
        exact Or.inr ⟨before, e, hne, hfront, hfound⟩
    · exact Or.inl h
  · rw [hnew, rebuilt, hstyles]
    exact Registry.styles_addEach_eq_iff _ _
  · rw [hnew, rebuilt, hdependencies]
    exact Registry.dependencies_addEach_eq_iff _ _

/-- The session with one script after its rules have been refused and files have changed. -/
def repaired (edits : List Event) : Session :=
  (single.step .default (.refusing "margin") (.serve "@flow-css;" "./a.css")).run .default
    (.refusing "margin") edits

example : (repaired []).loop.freshness = .stale := by decide +kernel

theorem serve_single :
    ((DevLoop.serve .default (.refusing "margin") "@flow-css;" "./a.css").run single.loop).1 =
      .error (.invalidRules "margin" ".flow-38965f9b \x7bmargin:0;\x7d") := by
  decide +kernel

/-- A script with a fault that comes and goes leaves nothing behind. -/
theorem recovered_in_order :
    (repaired [.write "./b.ts" "css(", .remove "./b.ts"]).loop.registry.styles =
        ((repaired [.write "./b.ts" "css(", .remove "./b.ts"]).rebuilt .default).styles ∧
      (repaired [.write "./b.ts" "css(", .remove "./b.ts"]).loop.registry.dependencies =
        ((repaired [.write "./b.ts" "css(", .remove "./b.ts"]).rebuilt .default).dependencies := by
  have hruns : (repaired [.write "./b.ts" "css("]).loop.freshness = .stale ∧
      (repaired [.write "./b.ts" "css(", .remove "./b.ts"]).loop.freshness ≠ .stale ∧
      (repaired [.write "./b.ts" "css("]).loop.registry.styles.names <+:
        ((repaired [.write "./b.ts" "css(", .remove "./b.ts"]).rebuilt .default).styles.names ∧
      (repaired [.write "./b.ts" "css("]).loop.registry.dependencies <+:
        ((repaired [.write "./b.ts" "css(", .remove "./b.ts"]).rebuilt .default).dependencies := by
    decide +kernel
  obtain ⟨hstale, hfresh, hnames, hpaths⟩ := hruns
  have hedits : ∀ event ∈ [Event.write "./b.ts" "css("], event.rescans = true := by decide
  have hlast : (Event.remove "./b.ts").rescans = true := rfl
  obtain ⟨-, -, -, -, -, hstyles, hdependencies⟩ :=
    recovered_iff serve_single hedits hlast rfl hstale rfl hfresh
  exact ⟨hstyles.mpr hnames, hdependencies.mpr hpaths⟩

/-- If the script in front of the fault loses its style before the fault is gone, the style is
left over. -/
theorem recovered_with_leftover :
    Started .default single ∧
      ((DevLoop.serve .default (.refusing "margin") "@flow-css;" "./a.css").run single.loop).1 =
        .error (.invalidRules "margin" ".flow-38965f9b \x7bmargin:0;\x7d") ∧
      (repaired [.write "./b.ts" "css(", .write "./a.ts" ""]).loop.freshness = .stale ∧
      (repaired [.write "./b.ts" "css(", .write "./a.ts" "", .remove "./b.ts"]).loop.freshness =
        .potentiallyStale ∧
      (repaired [.write "./b.ts" "css(", .write "./a.ts" "",
        .remove "./b.ts"]).loop.registry.styles.names = ["flow-38965f9b"] ∧
      (repaired [.write "./b.ts" "css(", .write "./a.ts" "",
        .remove "./b.ts"]).loop.registry.dependencies = ["./a.ts"] ∧
      ((repaired [.write "./b.ts" "css(", .write "./a.ts" "",
        .remove "./b.ts"]).rebuilt .default).styles.names = [] ∧
      ((repaired [.write "./b.ts" "css(", .write "./a.ts" "",
        .remove "./b.ts"]).rebuilt .default).dependencies = [] :=
  ⟨started_single, serve_single, by decide +kernel⟩

end Session

end StaticStyle
