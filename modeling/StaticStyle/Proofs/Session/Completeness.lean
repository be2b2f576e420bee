import StaticStyle.Proofs.Session.Coverage
import StaticStyle.Proofs.Sheet.Expansion

/-!
# Complete stylesheets

A stylesheet that is served from a session whose styles have not been dropped has the
rules of all scripts under the root in it (`Session.sheet_complete`).

The registry keeps one entry for a class name, so two styles whose class names
collide would share it.  The statement is about sessions in which that does not
happen.  `Session.keys` are the canonical texts that have come up in a session, and
the entries of the registry are among them (`Session.sound_run`).

Serving does not look at whether the styles have been dropped.  A session that has
dropped its styles serves the next stylesheet without them
(`Session.sheet_incomplete`).
-/

namespace StaticStyle

variable {c : Config} {p : SheetParser} {view : FileView} {files : Files} {file path : String}
  {known : Set String} {r : Registry}

/-- A parser that finds fault with a word. -/
def SheetParser.refusing (word : String) : SheetParser :=
  ⟨fun css => if Text.occursIn word.toList css.toList then some word else none, .ok⟩

/-! ## Canonical texts -/

namespace Scan

/-- The canonical texts of the styles in the scripts of a project. -/
def keysIn (c : Config) (view : FileView) : Set String :=
  {key | ∃ path rules, isScript path = true ∧ rulesAt c view path = .ok rules ∧
    ∃ e ∈ rules, e.key = key}

/-- The canonical texts of a project with one file are those of the file. -/
theorem exists_of_keysIn_singleton {text key : String} {rules : List ClassRule}
    (h : Script.rulesOf c text file = .ok rules)
    (hk : key ∈ keysIn c (Files.view [(file, text)])) : ∃ e ∈ rules, e.key = key := by
  obtain ⟨path, rules', -, hr, e, he, rfl⟩ := hk
  have hpath : file = path := by
    by_contra hne
    have hread : (Files.view [(file, text)]).read path = .error (.fileNotFound path) := by
      simp only [Files.view, Files.read, Table.get?, if_neg hne]
    rw [rulesAt, hread] at hr
    cases hr
  subst hpath
  have hread : (Files.view [(file, text)]).read file = .ok text := by
    simp only [Files.view, Files.read, Table.get?, if_pos]
  have hrules : rulesAt c (Files.view [(file, text)]) file = .ok rules := by
    rwa [rulesAt, hread]
  cases hr.symm.trans hrules
  exact ⟨e, he, rfl⟩

theorem className_of_rulesAt {rules : List ClassRule} (h : rulesAt c view path = .ok rules) :
    ∀ e ∈ rules, e.className = c.naming.classOf e.key := by
  unfold rulesAt at h
  cases hread : view.read path with
  | error fault =>
      rw [hread] at h
      cases h
  | ok code =>
      rw [hread] at h
      exact Script.className_of_rulesOf h

theorem sound_addAll {rules : List ClassRule} (hs : isScript path = true)
    (hr : rulesAt c view path = .ok rules) (hk : keysIn c view ⊆ known)
    (h : Registry.Sound c.naming known r) : Registry.Sound c.naming known (r.addAll rules path) :=
  h.addAll fun e he => ⟨className_of_rulesAt hr e he, hk ⟨path, rules, hs, hr, e, he, rfl⟩⟩

theorem sound_file (hk : keysIn c view ⊆ known) (h : Registry.Sound c.naming known r) :
    Registry.Sound c.naming known ((Scan.file c view file).run r).2 :=
  file_induction h fun hs _ hr _ h' => sound_addAll hs hr hk h'

theorem sound_all (hk : keysIn c view ⊆ known) (h : Registry.Sound c.naming known r) :
    Registry.Sound c.naming known ((Scan.all c view).run r).2 :=
  all_induction h (fun _ hs _ hr _ h' => sound_addAll hs hr hk h') fun _ h' => h'

end Scan

/-! ## Entries of a session -/

namespace Session

variable {s : Session}

/-- The canonical texts of the styles in the scripts of a session at any time. -/
def keys (c : Config) (p : SheetParser) (s : Session) (events : List Event) : Set String :=
  {key | ∃ before, before <+: events ∧ key ∈ Scan.keysIn c (s.run c p before).files.view}

theorem keysIn_subset_keys (c : Config) (p : SheetParser) (s : Session) (events : List Event) :
    Scan.keysIn c s.files.view ⊆ s.keys c p events :=
  fun _ hk => ⟨[], List.nil_prefix, hk⟩

theorem keys_step_subset (c : Config) (p : SheetParser) (s : Session) (event : Event)
    (events : List Event) : (s.step c p event).keys c p events ⊆ s.keys c p (event :: events) := by
  rintro key ⟨before, hb, hk⟩
  exact ⟨event :: before, List.cons_prefix_cons.mpr ⟨rfl, hb⟩, hk⟩

/-- An event brings nothing into the registry but styles of the files after it. -/
theorem sound_step (event : Event)
    (hk : Scan.keysIn c (s.step c p event).files.view ⊆ known)
    (h : Registry.Sound c.naming known s.loop.registry) :
    Registry.Sound c.naming known (s.step c p event).loop.registry := by
  have hupdate : ∀ files file, Scan.keysIn c files.view ⊆ known →
      Registry.Sound c.naming known (s.update c files file).loop.registry := by
    intro files file hk
    rw [Session.update, DevLoop.registry_update]
    split
    · exact Scan.sound_all hk h
    · exact Scan.sound_file hk h
  cases event with
  | start =>
      rw [Session.step, DevLoop.registry_start]
      exact Scan.sound_all hk h
  | serve code id =>
      rw [Session.step]
      rcases DevLoop.registry_serve c p code id s.loop with hreg | hreg | hreg
      · rw [hreg]
        exact h
      · rw [hreg]
        exact h
      · rw [hreg]
        exact Registry.sound_clear _
  | write file text => exact hupdate _ file hk
  | remove file => exact hupdate _ file hk

/-- The registry holds nothing but styles that have come up in the session. -/
theorem sound_run (events : List Event) (hk : s.keys c p events ⊆ known)
    (h : Registry.Sound c.naming known s.loop.registry) :
    Registry.Sound c.naming known (s.run c p events).loop.registry := by
  induction events generalizing s with
  | nil => exact h
  | cons event events ih =>
      have hrest := (keys_step_subset c p s event events).trans hk
      exact ih hrest (sound_step event ((keysIn_subset_keys c p _ events).trans hrest) h)

theorem Started.sound (h : Started c s) (hk : Scan.keysIn c s.files.view ⊆ known) :
    Registry.Sound c.naming known s.loop.registry := by
  obtain ⟨tally, hrun⟩ := h
  have hreg := DevLoop.registry_start c s.files.view .initial
  rw [hrun] at hreg
  rw [show s.loop.registry = _ from hreg]
  exact Scan.sound_all hk Registry.sound_empty

/-- Serving modules of a project with one style brings up one canonical text. -/
theorem injOn_keys_of_serve {text code id : String} {e : ClassRule}
    (hr : Script.rulesOf c text file = .ok [e]) :
    Set.InjOn c.naming.classOf ((opened c [(file, text)]).keys c p [.serve code id]) := by
  have hone : ∀ key ∈ (opened c [(file, text)]).keys c p [.serve code id], e.key = key := by
    rintro key ⟨before, hb, hk⟩
    have hfiles : ((opened c [(file, text)]).run c p before).files = [(file, text)] := by
      rcases List.prefix_cons_iff.mp hb with rfl | ⟨rest, rfl, hrest⟩
      · rfl
      · rw [List.prefix_nil.mp hrest]
        rfl
    rw [hfiles] at hk
    obtain ⟨e', he', hkey⟩ := Scan.exists_of_keysIn_singleton hr hk
    rwa [List.mem_singleton.mp he'] at hkey
  intro key hk key' hk' _
  exact (hone key hk).symm.trans (hone key' hk')

/-! ## Stylesheets -/

/-- A stylesheet with a directive that is served from a session has the rules of all
scripts under the root in it, unless the styles of the session have been dropped. -/
theorem sheet_complete (hstart : Started c s) (events : List Event) (hm : c.minify = false)
    (hinj : Set.InjOn c.naming.classOf (s.keys c p events))
    (hfresh : (s.run c p events).loop.freshness ≠ .stale) {code id : String}
    {served : Option Served} {loop : DevLoop} (hk : FileId.kindOf id = .stylesheet)
    (hroot : Sheet.isRoot c code = true)
    (hserve : (DevLoop.serve c p code id).run (s.run c p events).loop = (.ok served, loop)) :
    ∃ output, served = some (.sheet output) ∧
      ∀ path ∈ (s.run c p events).files.list c.root, Scan.isScript path = true →
        ∀ text, (s.run c p events).files.get? path = some text →
          ∀ rules, Script.rulesOf c text path = .ok rules →
            ∀ e ∈ rules, e.render.toList <:+: output.code.toList := by
  have hcovered : Covered c (s.run c p events) := hstart.covered_run events
  have hkeys : Scan.keysIn c (s.run c p events).files.view ⊆ s.keys c p events :=
    fun _ hk => ⟨events, List.prefix_rfl, hk⟩
  have hsound : Registry.Sound c.naming (s.keys c p events) (s.run c p events).loop.registry :=
    sound_run events subset_rfl (hstart.sound (keysIn_subset_keys c p s events))
  generalize s.run c p events = s' at *
  refine ⟨_, DevLoop.serve_sheet_eq hm hk hroot hserve, ?_⟩
  intro path hlist hs text htext rules hrules e he
  have hrulesAt : Scan.rulesAt c s'.files.view path = .ok rules := by
    have hok : s'.files.view.read path = .ok text := Files.read_eq_ok_iff.mpr htext
    rwa [Scan.rulesAt, hok]
  have hholds := hcovered (DevLoop.stale_of_freshness hfresh) _ rfl path hlist hs rules hrulesAt
  have hname := Script.className_of_rulesOf hrules e he
  obtain ⟨entry, hentry, hclass, hkey⟩ :=
    hsound.exists_entry hinj (hkeys ⟨path, rules, hs, hrulesAt, e, he, rfl⟩)
      (hname ▸ hholds.hasClass e he)
  have hrender : e.render = entry.2.render := by
    rw [ClassRule.render, ClassRule.render, hname, hclass, hkey]
  rw [hrender, Sheet.expanded, String.toList_ofList]
  exact (Registry.contains_rules hentry).trans (Sheet.contains_expand hroot _)

/-- A stylesheet that is served for the second time still has the rule of the script. -/
theorem sheet_complete_again :
    ∃ output loop e,
      (DevLoop.serve .default (.refusing "color") "@flow-css;" "./a.css").run
          (single.run .default (.refusing "color") [.serve "@flow-css;" "./a.css"]).loop =
        (.ok (some (.sheet output)), loop) ∧
      Script.rulesOf .default "css({margin: 0})" "./a.ts" = .ok [e] ∧
      e.render.toList <:+: output.code.toList := by
  obtain ⟨e, hr⟩ := exists_rulesOf_single
  obtain ⟨served, hserved, -⟩ := Running.exists_of_toOption (b := ())
    (x := ((DevLoop.serve .default (.refusing "color") "@flow-css;" "./a.css").run
      (single.run .default (.refusing "color") [.serve "@flow-css;" "./a.css"]).loop).1)
    (f := fun _ => ()) (by decide +kernel)
  obtain ⟨output, rfl, hall⟩ := sheet_complete started_single [.serve "@flow-css;" "./a.css"] rfl
    (injOn_keys_of_serve hr) (by decide +kernel) (by decide) (by decide +kernel)
    (Prod.ext hserved rfl)
  exact ⟨output, _, e, Prod.ext hserved rfl, hr,
    hall "./a.ts" (by decide) (by decide) _ rfl [e] hr e (List.mem_singleton_self e)⟩

/-- A session that has dropped its styles serves the next stylesheet without them. -/
theorem sheet_incomplete :
    Started .default single ∧ Config.default.minify = false ∧
      Set.InjOn Config.default.naming.classOf
        (single.keys .default (.refusing "margin") [.serve "@flow-css;" "./a.css"]) ∧
      FileId.kindOf "./a.css" = .stylesheet ∧ Sheet.isRoot .default "@flow-css;" = true ∧
      "./a.ts" ∈ (single.run .default (.refusing "margin")
        [.serve "@flow-css;" "./a.css"]).files.list Config.default.root ∧
      Scan.isScript "./a.ts" = true ∧
      (single.run .default (.refusing "margin")
        [.serve "@flow-css;" "./a.css"]).files.get? "./a.ts" = some "css({margin: 0})" ∧
      ∃ output loop e,
        (DevLoop.serve .default (.refusing "margin") "@flow-css;" "./a.css").run
            (single.run .default (.refusing "margin") [.serve "@flow-css;" "./a.css"]).loop =
          (.ok (some (.sheet output)), loop) ∧
        Script.rulesOf .default "css({margin: 0})" "./a.ts" = .ok [e] ∧
        ¬ e.render.toList <:+: output.code.toList := by
  obtain ⟨e, hr⟩ := exists_rulesOf_single
  refine ⟨started_single, rfl, injOn_keys_of_serve hr, by decide, by decide +kernel, by decide,
    by decide, rfl, ⟨"", [], true⟩, _, e, Running.run_of_toOption (by decide +kernel), hr,
    fun h => ?_⟩
  have hnil := List.infix_nil.mp h
  simp [ClassRule.render] at hnil

end Session

end StaticStyle
