import StaticStyle.Proofs.Session.Recovery

/-!
# Gaps after a failed build

A build that fails stops at the first script with a fault and leaves the session as fresh as it
was.  In a new session, the scripts behind the fault have then not been read, nothing says
so, and an update looks at no file but its own (`Session.unread_behind_fault`).

A session comes to know a script in one of three ways: the first scan gets through it, there
is an update for it, or the styles are dropped, after which nothing but a scan of all scripts
makes the session anything else than stale.  `Session.Noticed` says that one of them has
happened, and `Session.known_iff_noticed` that exactly then the styles of the script are known.
What carries this is an invariant of one script (`Knows.step`), as `Covered` is one of all of
them.
-/

namespace StaticStyle

variable {c : Config} {p : SheetParser} {view : FileView} {files files' : Files}
  {file path : String} {r : Registry} {rules : List ClassRule}

/-! ## Scans -/

namespace Scan

/-- The rules of the scripts that a full scan gets through are held even if it fails. -/
theorem holds_passed (hpassed : path ∈ passed c view) (hr : rulesAt c view path = .ok rules) :
    ((all c view).run r).2.Holds rules path := by
  have hfound : ∀ e ∈ rules, (e, path) ∈ found c view :=
    fun e he => mem_found_iff.mpr ⟨hpassed, rules, hr, he⟩
  have hheld := Registry.holds_addEach hfound r
  rcases all_cases c view with ⟨fault, hrun⟩ | ⟨scanned, withStyles, hrun⟩
  · rw [hrun]
    exact hheld
  · rw [hrun]
    exact hheld.grow (Registry.grows_noteScan _)

/-- A full scan makes no files dependencies but those that it gets through. -/
theorem passed_of_mem_dependencies (h : path ∈ ((all c view).run r).2.dependencies) :
    path ∈ r.dependencies ∨ path ∈ passed c view := by
  have hfound : path ∈ (r.addEach (found c view)).dependencies := by
    rcases all_cases c view with ⟨fault, hrun⟩ | ⟨scanned, withStyles, hrun⟩
    · rw [hrun] at h
      exact h
    · rw [hrun] at h
      exact h
  rcases (Registry.mem_dependencies_addEach _ r).mp hfound with h | ⟨e, he⟩
  · exact Or.inl h
  · exact Or.inr (mem_found_iff.mp he).1

/-- The scan of a file makes no other file a dependency. -/
theorem mem_dependencies_file (h : path ∈ ((Scan.file c view file).run r).2.dependencies) :
    path ∈ r.dependencies ∨ path = file := by
  refine file_induction
    (P := fun r' => path ∈ r'.dependencies → path ∈ r.dependencies ∨ path = file)
    Or.inl (fun _ rules _ r' ih hmem => ?_) h
  exact (Registry.eq_of_mem_dependencies_addAll hmem).elim ih Or.inr

end Scan

namespace Session

variable {s now : Session} {event : Event} {events before : List Event}

/-! ## Dependencies -/

/-- An event makes no file a dependency that it does not change, unless it has all of them
scanned. -/
theorem mem_dependencies_step (hevent : event ≠ .start) (hstale : s.loop.registry.stale = false)
    (h : path ∈ (s.step c p event).loop.registry.dependencies) :
    path ∈ s.loop.registry.dependencies ∨ event.file? = some path := by
  have hupdate : ∀ files file, path ∈ (s.update c files file).loop.registry.dependencies →
      path ∈ s.loop.registry.dependencies ∨ some file = some path := by
    intro files file h
    rw [Session.update, DevLoop.registry_update, hstale, if_neg Bool.false_ne_true] at h
    exact (Scan.mem_dependencies_file h).imp id fun heq => congrArg some heq.symm
  cases event with
  | start => exact absurd rfl hevent
  | serve code id =>
      rw [Session.step] at h
      rcases DevLoop.registry_serve c p code id s.loop with hreg | hreg | hreg
      · rw [hreg] at h
        exact Or.inl h
      · rw [hreg] at h
        exact Or.inl h
      · rw [hreg] at h
        cases h
  | write file text => exact hupdate _ file h
  | remove file => exact hupdate _ file h

/-- As long as no styles are dropped, a dependency was one before or has been changed. -/
theorem mem_dependencies_run (hevents : ∀ event ∈ events, event ≠ .start)
    (hstale : ∀ before, before <+: events → (s.run c p before).loop.registry.stale = false)
    (h : path ∈ (s.run c p events).loop.registry.dependencies) :
    path ∈ s.loop.registry.dependencies ∨ ∃ event ∈ events, event.file? = some path := by
  induction events generalizing s with
  | nil => exact Or.inl h
  | cons event events ih =>
      have hrest : ∀ before, before <+: events →
          ((s.step c p event).run c p before).loop.registry.stale = false :=
        fun before hfront => hstale (event :: before) (List.cons_prefix_cons.mpr ⟨rfl, hfront⟩)
      rcases ih (fun e he => hevents e (List.mem_cons_of_mem _ he)) hrest h with h | ⟨e, he, hfile⟩
      · exact (mem_dependencies_step (hevents event List.mem_cons_self)
          (hstale [] List.nil_prefix) h).imp id fun hfile => ⟨event, List.mem_cons_self, hfile⟩
      · exact Or.inr ⟨e, List.mem_cons_of_mem _ he, hfile⟩

/-! ## Scripts that are noticed -/

/-- In a session that begins with a build of some files, a script has come to notice: the build
has got through it, it has been changed since, or the styles have been dropped since. -/
def Noticed (c : Config) (p : SheetParser) (files : Files) (events : List Event) (path : String) :
    Prop :=
  path ∈ Scan.passed c files.view ∨ (∃ event ∈ events, event.file? = some path) ∨
    ∃ before, before <+: events ∧ ((opened c files).run c p before).loop.freshness = .stale

/-- A script that has come to notice is known. -/
theorem Noticed.knows (hs : Scan.isScript path = true) (h : Noticed c p files events path) :
    Knows c path ((opened c files).run c p events) := by
  rcases h with hpassed | ⟨event, hevent, hfile⟩ | ⟨before, ⟨after, rfl⟩, hstale⟩
  · refine Knows.run hs (fun _ _ rules hr => ?_) events
    rw [opened, DevLoop.registry_start]
    exact Scan.holds_passed hpassed hr
  · obtain ⟨before, after, rfl⟩ := List.append_of_mem hevent
    rw [run_append]
    exact Knows.run (p := p) hs (Knows.step hs fun hne => absurd hfile hne) after
  · rw [run_append]
    refine Knows.run hs (fun hfresh => ?_) after
    rw [DevLoop.freshness_eq_stale_iff.mp hstale] at hfresh
    cases hfresh

/-- Any other script is no dependency. -/
theorem noticed_of_mem_dependencies (hevents : ∀ event ∈ events, event ≠ .start)
    (h : path ∈ ((opened c files).run c p events).loop.registry.dependencies) :
    Noticed c p files events path := by
  by_cases hstale : ∃ before, before <+: events ∧
      ((opened c files).run c p before).loop.freshness = .stale
  · exact Or.inr (Or.inr hstale)
  · have hfresh : ∀ before, before <+: events →
        ((opened c files).run c p before).loop.registry.stale = false :=
      fun before hfront => DevLoop.stale_of_freshness fun heq => hstale ⟨before, hfront, heq⟩
    rcases mem_dependencies_run hevents hfresh h with hopened | hchanged
    · rw [opened, DevLoop.registry_start] at hopened
      rcases Scan.passed_of_mem_dependencies hopened with hempty | hpassed
      · cases hempty
      · exact Or.inl hpassed
    · exact Or.inr (Or.inl hchanged)

/-- In a session that begins with a build, whether this has succeeded or not, and that is not stale
now, the styles of a script that has come to notice are known: the class of every call is
registered, and the script is served with all of them replaced, under every policy and
without a report.  A script with calls is a dependency exactly if it has come to notice. -/
theorem known_iff_noticed {code : String} {script : Script}
    (hevents : ∀ event ∈ events, event ≠ .start) (hnow : now = (opened c files).run c p events)
    (hfresh : now.loop.freshness ≠ .stale) (hlist : path ∈ now.files.list c.root)
    (hs : Scan.isScript path = true) (htext : now.files.get? path = some code)
    (hread : Script.read c.function code path = .ok script)
    (hrules : script.rules c path = .ok rules) :
    (Noticed c p files events path →
      (∀ call ∈ script.calls, ∃ e, script.ruleOf c path call = .ok e ∧
        now.loop.registry.hasClass e.className = true) ∧
      ∀ policy id, FileId.kindOf id = .script → FileId.path id = FileId.path path →
        c.excludes id = false →
          ∃ output : Option ReplacedScript,
            (DevLoop.serve { c with unknown := policy } p code id).run now.loop =
              (.ok (output.map .script), now.loop) ∧
            (output = none ↔ script.calls = []) ∧
            ∀ replaced, output = some replaced → replaced.unresolved = 0) ∧
    (script.calls ≠ [] →
      (path ∈ now.loop.registry.dependencies ↔ Noticed c p files events path)) := by
  have hcalls := Script.rules_eq_ok_iff.mp hrules
  have hrulesOf : Script.rulesOf c code path = .ok rules :=
    Script.rulesOf_eq_ok_iff.mpr ⟨script, hread, hrules⟩
  have hrulesAt : Scan.rulesAt c now.files.view path = .ok rules :=
    (Scan.rulesAt_of_get? htext).trans hrulesOf
  have hnil : rules = [] ↔ script.calls = [] := by
    rw [← List.length_eq_zero_iff, ← hcalls.length_eq, List.length_eq_zero_iff]
  have hholds : Noticed c p files events path → now.loop.registry.Holds rules path := by
    intro hnoticed
    have hknows : Knows c path now := hnow ▸ hnoticed.knows hs
    exact hknows (DevLoop.stale_of_freshness hfresh) hlist rules hrulesAt
  refine ⟨fun hnoticed => ⟨fun call hcall => ?_, ?_⟩,
    fun hne => ⟨fun hmem => ?_, fun hnoticed => ?_⟩⟩
  · obtain ⟨e, he, hruleOf⟩ := exists_of_forall₂_left hcalls hcall
    exact ⟨e, hruleOf, (hholds hnoticed).hasClass e he⟩
  · intro policy id hk hp hx
    obtain ⟨output, hrun, hnone, hsome⟩ :=
      DevLoop.serve_run_of_holds hrulesOf (hholds hnoticed) hk hp hx p policy
    exact ⟨output, hrun, hnone.trans hnil, hsome⟩
  · rw [hnow] at hmem
    exact noticed_of_mem_dependencies hevents hmem
  · exact (hholds hnoticed).isDependency (hnil.not.mpr hne)

/-- A project in which the script of `single` follows one with a fault. -/
def faulty : Files := [("./b.ts", "css("), ("./a.ts", "css({margin: 0})")]

/-- The session that begins with the build of it, after some events. -/
def resumed (events : List Event) : Session :=
  (opened .default faulty).run .default ⟨fun _ => none, .ok⟩ events

/-- Changes of files do not make it stale. -/
theorem freshness_resumed (hevents : ∀ event ∈ events, event.rescans = true) :
    (resumed events).loop.freshness ≠ .stale := by
  have hopened : (opened .default faulty).loop.registry.stale = false := by
    rw [opened, DevLoop.registry_start]
    exact Scan.stale_all rfl
  rw [ne_eq, DevLoop.freshness_eq_stale_iff, resumed, stale_run hevents hopened]
  exact Bool.false_ne_true

/-- The update for the script makes up for the build. -/
theorem known_iff_noticed_written :
    "./a.ts" ∈ (resumed [.write "./a.ts" "css({margin: 0})"]).loop.registry.dependencies ∧
      ∃ output : Option ReplacedScript,
        (DevLoop.serve .default ⟨fun _ => none, .ok⟩ "css({margin: 0})" "./a.ts").run
            (resumed [.write "./a.ts" "css({margin: 0})"]).loop =
          (.ok (output.map .script), (resumed [.write "./a.ts" "css({margin: 0})"]).loop) ∧
        ∀ replaced, output = some replaced → replaced.unresolved = 0 := by
  obtain ⟨e, hr⟩ := exists_rulesOf_single
  obtain ⟨script, hread, hrules⟩ := Script.rulesOf_eq_ok_iff.mp hr
  have hcalls : script.calls ≠ [] := by
    intro hnil
    have hlength := (Script.rules_eq_ok_iff.mp hrules).length_eq
    rw [hnil] at hlength
    cases hlength
  have hevents : ∀ event ∈ [Event.write "./a.ts" "css({margin: 0})"], event ≠ .start := by decide
  have hnow : resumed [.write "./a.ts" "css({margin: 0})"] = (opened .default faulty).run .default
      ⟨fun _ => none, .ok⟩ [.write "./a.ts" "css({margin: 0})"] := rfl
  have hnoticed : Noticed .default ⟨fun _ => none, .ok⟩ faulty
      [.write "./a.ts" "css({margin: 0})"] "./a.ts" :=
    Or.inr (Or.inl ⟨_, List.mem_singleton_self _, rfl⟩)
  obtain ⟨hknown, hdependency⟩ := known_iff_noticed hevents hnow
    (freshness_resumed (by decide)) (by decide) (by decide) rfl hread hrules
  obtain ⟨-, hserve⟩ := hknown hnoticed
  obtain ⟨output, hrun, -, hsome⟩ := hserve .abort "./a.ts" (by decide) rfl (by decide)
  exact ⟨(hdependency hcalls).mpr hnoticed, output, hrun, hsome⟩

/-- If the fault is mended instead, the session is fresh, and the script behind it is not known. -/
theorem unread_behind_fault :
    ((DevLoop.start .default faulty.view).run .initial).1 = .error (.unparsableScript "./b.ts") ∧
      ((DevLoop.update .default (Files.view (faulty.put "./b.ts" "")) "./b.ts").run
        (resumed []).loop).1 = .ok ⟨false, []⟩ ∧
      (resumed [.write "./b.ts" ""]).loop.freshness = .fresh ∧
      "./a.ts" ∈ (resumed [.write "./b.ts" ""]).files.list Config.default.root ∧
      Scan.isScript "./a.ts" = true ∧
      (resumed [.write "./b.ts" ""]).files.get? "./a.ts" = some "css({margin: 0})" ∧
      ∃ e, Script.rulesOf .default "css({margin: 0})" "./a.ts" = .ok [e] ∧
        (resumed [.write "./b.ts" ""]).loop.registry.hasClass e.className = false := by
  obtain ⟨e, hr⟩ := exists_rulesOf_single
  have hruns : ((DevLoop.start .default faulty.view).run .initial).1 =
        .error (.unparsableScript "./b.ts") ∧
      ((DevLoop.update .default (Files.view (faulty.put "./b.ts" "")) "./b.ts").run
        (resumed []).loop).1 = .ok ⟨false, []⟩ ∧
      (resumed [.write "./b.ts" ""]).loop.freshness = .fresh ∧
      (resumed [.write "./b.ts" ""]).loop.registry.styles.names = [] := by
    decide +kernel
  obtain ⟨hstart, hupdate, hfresh, hempty⟩ := hruns
  have hunknown : (resumed [.write "./b.ts" ""]).loop.registry.hasClass e.className = false := by
    rw [Registry.hasClass, ← Bool.not_eq_true, ← Table.mem_names, hempty]
    exact List.not_mem_nil
  exact ⟨hstart, hupdate, hfresh, by decide, by decide, rfl, e, hr, hunknown⟩

end Session

end StaticStyle
