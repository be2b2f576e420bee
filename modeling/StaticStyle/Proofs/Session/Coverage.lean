import StaticStyle.Proofs.DevLoop.Operations
import StaticStyle.Proofs.Script.Agreement
import StaticStyle.Proofs.Session.Basic

/-!
# Coverage

A session whose styles have not been dropped knows the styles of every script under
the root.  This is `Session.Covered`, and every event keeps it (`Covered.step`), as it does
for each script on its own (`Knows.step`): a full scan that succeeds establishes it, an
invalid set of rules makes the session stale, and after an edit the update looks at the one
file whose text has changed.  A scan that fails takes nothing away.

It follows that a script can be served from any such session with all its calls
replaced, whatever the policy on unknown styles is (`Session.scripts_covered`).
-/

namespace StaticStyle

variable {c : Config} {p : SheetParser} {view : FileView} {files files' : Files} {file path : String}
  {r : Registry}

/-! ## Files -/

namespace Files

theorem mem_list (files : Files) (root path : String) :
    path ∈ files.list root ↔
      root.toList.isPrefixOf path.toList = true ∧ (files.get? path).isSome = true := by
  rw [list, List.mem_filter, Table.mem_names, and_comm]
  rfl

theorem mem_list_congr {root : String} (h : files'.get? path = files.get? path) :
    path ∈ files'.list root ↔ path ∈ files.list root := by
  rw [mem_list, mem_list, h]

theorem read_eq_ok_iff {code : String} : files.read path = .ok code ↔ files.get? path = some code := by
  unfold read
  cases files.get? path with
  | none =>
      constructor
      · nofun
      · nofun
  | some text =>
      rw [Except.ok.injEq, Option.some.injEq]

/-- Files that differ in the text of one file only, or in whether there is such a file. -/
def DifferAt (file : String) (files files' : Files) : Prop :=
  ∀ other, other ≠ file → files'.get? other = files.get? other

theorem differAt_put (file text : String) (files : Files) :
    DifferAt file files (files.put file text) := by
  intro other ho
  rw [Table.get?_put, if_neg ho.symm]

theorem differAt_erase (file : String) (files : Files) : DifferAt file files (files.erase file) := by
  intro other ho
  rw [Table.get?_erase, if_neg ho.symm]

end Files

/-! ## Scans -/

namespace Scan

/-- The rules of a file in memory are those of its text. -/
theorem rulesAt_of_get? {text : String} (h : files.get? path = some text) :
    rulesAt c files.view path = Script.rulesOf c text path := by
  have hok : files.view.read path = .ok text := Files.read_eq_ok_iff.mpr h
  rw [rulesAt, hok]
  rfl

/-- A file whose text has not changed has the rules that it had. -/
theorem rulesAt_congr (h : files'.get? path = files.get? path) :
    rulesAt c files'.view path = rulesAt c files.view path := by
  have hread : files'.view.read path = files.view.read path := by
    change files'.read path = files.read path
    rw [Files.read, Files.read, h]
  rw [rulesAt, hread, rulesAt]

/-- After a full scan that succeeds the rules of a script are held, and one that fails takes none
of them away. -/
theorem holds_all {rules : List ClassRule} (hs : isScript path = true)
    (hlist : path ∈ files.list c.root) (hr : rulesAt c files.view path = .ok rules)
    (h : r.stale = false → r.Holds rules path)
    (hfresh : ((all c files.view).run r).2.stale = false) :
    ((all c files.view).run r).2.Holds rules path := by
  have hg := grows_all c files.view r
  rcases hrun : (all c files.view).run r with ⟨fault | tally, r'⟩
  · rw [hrun] at hfresh hg
    exact (h ((stale_all_of_error hrun).symm.trans hfresh)).grow hg
  · exact (covers_of_all hrun).2 _ rfl path hlist hs rules hr

end Scan

/-! ## Scripts whose rules are held -/

/-- A script whose rules are held is served with all its calls replaced, under every policy and
without a report. -/
theorem DevLoop.serve_run_of_holds {loop : DevLoop} {code id : String} {rules : List ClassRule}
    (hr : Script.rulesOf c code path = .ok rules) (hholds : loop.registry.Holds rules path)
    (hk : FileId.kindOf id = .script) (hp : FileId.path id = FileId.path path)
    (hx : c.excludes id = false) (p : SheetParser) (policy : UnknownPolicy) :
    ∃ output : Option ReplacedScript,
      (DevLoop.serve { c with unknown := policy } p code id).run loop =
        (.ok (output.map .script), loop) ∧
      (output = none ↔ rules = []) ∧
      ∀ replaced, output = some replaced → replaced.unresolved = 0 := by
  have hid : Script.rulesOf { c with unknown := policy } code id = .ok rules :=
    (Script.rulesOf_alike (c.alike_unknown policy) code id).trans
      (Script.rulesOf_of_path_eq hp hr)
  obtain ⟨output, hrun, hnone, hsome⟩ :=
    Script.replaceCalls_run hid hholds.hasClass loop.reports
  refine ⟨output, ?_, hnone, fun replaced ho => (hsome replaced ho).1⟩
  have hserve := DevLoop.serve_script_run (c := { c with unknown := policy }) hk hx p code loop
  rw [hserve, hrun]
  rfl

/-! ## Sessions -/

namespace Session

variable {s : Session} {event : Event}

/-- Unless its styles have been dropped, a session knows the styles of a script, if it is under
the root and has no fault. -/
def Knows (c : Config) (path : String) (s : Session) : Prop :=
  s.loop.registry.stale = false → path ∈ s.files.list c.root →
    ∀ rules, Scan.rulesAt c s.files.view path = .ok rules → s.loop.registry.Holds rules path

/-- The update for a script makes it known, and no other update makes it unknown. -/
theorem Knows.update (hs : Scan.isScript path = true) (hd : Files.DifferAt file s.files files')
    (h : file ≠ path → Knows c path s) : Knows c path (s.update c files' file) := by
  rw [Knows, Session.update, DevLoop.registry_update]
  cases hstale : s.loop.registry.stale with
  | true =>
      rw [if_pos rfl]
      intro hfresh hlist rules hr
      refine Scan.holds_all hs hlist hr (fun hfresh' => ?_) hfresh
      rw [hstale] at hfresh'
      cases hfresh'
  | false =>
      rw [if_neg Bool.false_ne_true]
      intro _ hlist rules hr
      by_cases hpath : file = path
      · subst hpath
        exact Scan.holds_file hs hr
      · have hget : files'.get? path = s.files.get? path := hd path (Ne.symm hpath)
        have hlist' : path ∈ s.files.list c.root := (Files.mem_list_congr hget).mp hlist
        have hr' : Scan.rulesAt c s.files.view path = .ok rules :=
          (Scan.rulesAt_congr hget).symm.trans hr
        exact (h hpath hstale hlist' rules hr').grow (Scan.grows_file c files'.view file _)

/-- A script is known after an event that changes it, and after any other event if it was before. -/
theorem Knows.step (hs : Scan.isScript path = true)
    (h : event.file? ≠ some path → Knows c path s) : Knows c path (s.step c p event) := by
  have hnone : none ≠ some path := (Option.some_ne_none path).symm
  cases event with
  | start =>
      rw [Knows, Session.step, DevLoop.registry_start]
      intro hfresh hlist rules hr
      exact Scan.holds_all hs hlist hr (fun hfresh' => h hnone hfresh' hlist rules hr) hfresh
  | serve code id =>
      rw [Knows, Session.step]
      rcases DevLoop.registry_serve c p code id s.loop with hreg | hreg | hreg
      · rw [hreg]
        exact h hnone
      · rw [hreg]
        intro hfresh hlist rules hr
        exact (h hnone hfresh hlist rules hr).grow (Registry.grows_addRoot id _)
      · rw [hreg]
        intro hfresh
        cases hfresh
  | write file text =>
      exact Knows.update hs (Files.differAt_put file text s.files)
        fun hne => h fun heq => hne (Option.some.inj heq)
  | remove file =>
      exact Knows.update hs (Files.differAt_erase file s.files)
        fun hne => h fun heq => hne (Option.some.inj heq)

theorem Knows.run (hs : Scan.isScript path = true) (h : Knows c path s) (events : List Event) :
    Knows c path (s.run c p events) :=
  run_induction h (fun _ _ h' => Knows.step hs fun _ => h') events

/-- Unless its styles have been dropped, a session covers the scripts under the root. -/
def Covered (c : Config) (s : Session) : Prop :=
  s.loop.registry.stale = false → Scan.Covers c s.files.view s.loop.registry

theorem Started.covered (h : Started c s) : Covered c s := by
  obtain ⟨tally, hrun⟩ := h
  have hreg := DevLoop.registry_start c s.files.view .initial
  rw [hrun] at hreg
  obtain ⟨tally', loop, hall, -⟩ := Running.exists_of_run_bind hrun
  rw [DevLoop.onRegistry_run] at hall
  have hok : ((Scan.all c s.files.view).run DevLoop.initial.registry).1 = .ok tally' :=
    congrArg Prod.fst hall
  intro _
  rw [show s.loop.registry = _ from hreg]
  exact (Scan.covers_of_all (Prod.ext hok rfl)).2

theorem covered_iff : Covered c s ↔ ∀ path, Scan.isScript path = true → Knows c path s := by
  constructor
  · intro h path hs hfresh hlist rules hr
    exact h hfresh _ rfl path hlist hs rules hr
  · rintro h hfresh _ ⟨⟩ path hlist hs rules hr
    exact h path hs hfresh hlist rules hr

theorem Covered.step (h : Covered c s) (event : Event) : Covered c (s.step c p event) :=
  covered_iff.mpr fun path hs => Knows.step hs fun _ => covered_iff.mp h path hs

theorem Started.covered_run (h : Started c s) (events : List Event) :
    Covered c (s.run c p events) :=
  run_induction h.covered (fun _ event h' => h'.step event) events

/-- A scan that succeeds on any registry starts a new session. -/
theorem started_of_all {tally : ScanTally}
    (h : ((Scan.all c files.view).run r).1 = .ok tally) : Started c (opened c files) := by
  have hscans := (Scan.exists_all_iff rfl).mp ⟨tally, h⟩
  obtain ⟨tally', hempty⟩ :=
    (Scan.exists_all_iff (r := DevLoop.initial.registry) rfl).mpr hscans
  refine started_opened ?_
  rw [DevLoop.start, Running.run_bind, DevLoop.onRegistry_run, hempty]
  rfl

/-- A session with one script and one style. -/
def single : Session := opened .default [("./a.ts", "css({margin: 0})")]

/-- The rules of the script of `single`. -/
theorem exists_rulesOf_single :
    ∃ e, Script.rulesOf .default "css({margin: 0})" "./a.ts" = .ok [e] := by
  obtain ⟨rules, hr, hlength⟩ : ∃ rules, Script.rulesOf .default "css({margin: 0})" "./a.ts" =
      .ok rules ∧ rules.length = 1 := Running.exists_of_toOption (by decide +kernel)
  obtain ⟨e, rfl⟩ := List.length_eq_one_iff.mp hlength
  exact ⟨e, hr⟩

theorem started_single : Started .default single := by
  obtain ⟨e, hr⟩ := exists_rulesOf_single
  have hlist : (Files.view [("./a.ts", "css({margin: 0})")]).list Config.default.root =
      .ok ["./a.ts"] := rfl
  have hscans : ∀ path ∈ ["./a.ts"], Scan.isScript path = true → ∃ rules,
      Scan.rulesAt .default (Files.view [("./a.ts", "css({margin: 0})")]) path = .ok rules := by
    intro path hpath _
    rw [List.mem_singleton.mp hpath, Scan.rulesAt_of_get? rfl]
    exact ⟨[e], hr⟩
  obtain ⟨tally, hall⟩ := (Scan.exists_all_iff (r := .empty) hlist).mpr hscans
  exact started_of_all hall

example : single.loop.registry.styles.names = ["flow-38965f9b"] := by decide +kernel

/-- In every state of a session whose styles have not been dropped, the styles of the scripts
under the root are known: the class of every call of such a script is registered, the
script is a dependency if it has calls, and it is served with all of them replaced,
under every policy and without a report. -/
theorem scripts_covered (hstart : Started c s) (events : List Event) {code : String} {script : Script}
    {rules : List ClassRule} (hfresh : (s.run c p events).loop.freshness ≠ .stale)
    (hlist : path ∈ (s.run c p events).files.list c.root) (hs : Scan.isScript path = true)
    (htext : (s.run c p events).files.get? path = some code)
    (hread : Script.read c.function code path = .ok script)
    (hrules : script.rules c path = .ok rules) :
    (∀ call ∈ script.calls, ∃ e, script.ruleOf c path call = .ok e ∧
      (s.run c p events).loop.registry.hasClass e.className = true) ∧
    (script.calls ≠ [] → path ∈ (s.run c p events).loop.registry.dependencies) ∧
    ∀ policy id, FileId.kindOf id = .script → FileId.path id = FileId.path path →
      c.excludes id = false →
        ∃ output : Option ReplacedScript,
          (DevLoop.serve { c with unknown := policy } p code id).run (s.run c p events).loop =
            (.ok (output.map .script), (s.run c p events).loop) ∧
          (output = none ↔ script.calls = []) ∧
          ∀ replaced, output = some replaced → replaced.unresolved = 0 := by
  have hcovered : Covered c (s.run c p events) := hstart.covered_run events
  generalize s.run c p events = s' at *
  have hcalls := Script.rules_eq_ok_iff.mp hrules
  have hrulesOf : Script.rulesOf c code path = .ok rules :=
    Script.rulesOf_eq_ok_iff.mpr ⟨script, hread, hrules⟩
  have hrulesAt : Scan.rulesAt c s'.files.view path = .ok rules := by
    have hok : s'.files.view.read path = .ok code := Files.read_eq_ok_iff.mpr htext
    rwa [Scan.rulesAt, hok]
  have hnil : rules = [] ↔ script.calls = [] := by
    rw [← List.length_eq_zero_iff, ← hcalls.length_eq, List.length_eq_zero_iff]
  have hholds := hcovered (DevLoop.stale_of_freshness hfresh) _ rfl path hlist hs rules hrulesAt
  refine ⟨fun call hcall => ?_, fun hne => hholds.isDependency (hnil.not.mpr hne), ?_⟩
  · obtain ⟨e, he, hruleOf⟩ := exists_of_forall₂_left hcalls hcall
    exact ⟨e, hruleOf, hholds.hasClass e he⟩
  · intro policy id hk hp hx
    obtain ⟨output, hrun, hnone, hsome⟩ :=
      DevLoop.serve_run_of_holds hrulesOf hholds hk hp hx p policy
    exact ⟨output, hrun, hnone.trans hnil, hsome⟩

/-- A script is served with the style that it got in an edit. -/
theorem scripts_covered_edited :
    ∃ output : Option ReplacedScript,
      (DevLoop.serve { Config.default with unknown := .substitute } ⟨fun _ => none, .ok⟩
          "css({margin: 1})" "./a.ts?v=1").run
        (single.run .default ⟨fun _ => none, .ok⟩ [.write "./a.ts" "css({margin: 1})"]).loop =
        (.ok (output.map .script),
          (single.run .default ⟨fun _ => none, .ok⟩ [.write "./a.ts" "css({margin: 1})"]).loop) ∧
      ∀ replaced, output = some replaced → replaced.unresolved = 0 := by
  obtain ⟨rules, hr, -⟩ : ∃ rules, Script.rulesOf .default "css({margin: 1})" "./a.ts" =
      .ok rules ∧ rules.length = 1 := Running.exists_of_toOption (by decide +kernel)
  obtain ⟨script, hread, hrules⟩ := Script.rulesOf_eq_ok_iff.mp hr
  obtain ⟨-, -, hserve⟩ := scripts_covered (p := ⟨fun _ => none, .ok⟩) started_single
    [.write "./a.ts" "css({margin: 1})"] (by decide +kernel) (by decide +kernel)
    (by decide) (by decide +kernel) hread hrules
  obtain ⟨output, hrun, -, hsome⟩ :=
    hserve .substitute "./a.ts?v=1" (by decide) (by decide) (by decide)
  exact ⟨output, hrun, hsome⟩

end Session

end StaticStyle
