import StaticStyle.Proofs.Registry.Growth
import StaticStyle.Proofs.Running
import StaticStyle.Proofs.Script.Rules
import StaticStyle.Scan

/-!
# What scans do to a registry

A scan of a script knows all its rules before it touches the registry, so it is
described by the rules alone: `source_run` and `file_run` say that a script with
rules adds them, and that one at fault leaves the registry as it is.

A full scan adds the rules of one script after the other.  What such steps keep is
kept by the whole scan, wherever it stops (`each_induction`, `all_induction`).  A scan
that gets to the end has covered every script (`covers_of_all`).
-/

namespace StaticStyle.Scan

open Running

variable {c : Config} {view : FileView} {code path : String} {paths : List String}
  {r r' : Registry} {rules : List ClassRule}

/-! ## One file -/

/-- The rules of the file at a path, read as a script. -/
def rulesAt (c : Config) (view : FileView) (path : String) :
    Except StyleError (List ClassRule) := do
  let code ← view.read path
  Script.rulesOf c code path

/-- What comes of the rules of a file: they are added, or the first error is passed on. -/
def collect (file : String) (r : Registry) :
    Except StyleError (List ClassRule) → Except StyleError Bool × Registry
  | .ok rules => (.ok !rules.isEmpty, r.addAll rules file)
  | .error e => (.error e, r)

theorem source_run (hs : isScript path = true) (c : Config) (code : String) (r : Registry) :
    (source c code path).run r = collect path r (Script.rulesOf c code path) := by
  simp only [source, hs, Bool.not_true, if_neg Bool.false_ne_true, run_bind, run_lift,
    Script.rulesOf]
  cases Script.read c.function code path with
  | error e => rfl
  | ok script =>
      simp only [bind, Except.bind]
      cases script.rules c path with
      | error e => rfl
      | ok rules => rfl

theorem file_run (hs : isScript path = true) (c : Config) (view : FileView) (r : Registry) :
    (file c view path).run r = collect path r (rulesAt c view path) := by
  simp only [file, hs, Bool.not_true, if_neg Bool.false_ne_true, run_bind, run_lift, rulesAt]
  cases view.read path with
  | error e => rfl
  | ok code => exact source_run hs c code r

/-- Whatever is no script is left alone. -/
theorem file_run_other (hs : isScript path = false) (c : Config) (view : FileView)
    (r : Registry) : (file c view path).run r = (.ok false, r) := by
  simp only [file, hs, Bool.not_false, if_true]
  rfl

/-- A scan of a file that does not come across a style leaves the registry alone. -/
theorem file_cases (c : Config) (view : FileView) (path : String) (r : Registry) :
    ((file c view path).run r).1 = .ok true ∨ ((file c view path).run r).2 = r := by
  cases hs : isScript path with
  | false =>
      rw [file_run_other hs]
      exact Or.inr rfl
  | true =>
      rw [file_run hs]
      cases rulesAt c view path with
      | error e => exact Or.inr rfl
      | ok rules =>
          cases rules with
          | nil => exact Or.inr rfl
          | cons e rules => exact Or.inl rfl

/-! ## What a scan keeps -/

section

variable {P : Registry → Prop}

/-- What adding the rules of a script keeps is kept by a scan of the file. -/
theorem file_induction (h : P r)
    (step : isScript path = true → ∀ rules, rulesAt c view path = .ok rules →
      ∀ r, P r → P (r.addAll rules path)) :
    P ((file c view path).run r).2 := by
  cases hs : isScript path with
  | false =>
      rw [file_run_other hs]
      exact h
  | true =>
      rw [file_run hs]
      cases hr : rulesAt c view path with
      | error e => exact h
      | ok rules => exact step hs rules hr r h

/-- What adding the rules of any of the scripts keeps is kept by going through them, whether
that gets to the end or not. -/
theorem each_induction (h : P r)
    (step : ∀ path ∈ paths, isScript path = true → ∀ rules, rulesAt c view path = .ok rules →
      ∀ r, P r → P (r.addAll rules path)) :
    P ((each c view paths).run r).2 := by
  induction paths generalizing r with
  | nil => exact h
  | cons path paths ih =>
      have hfile := file_induction h (step path List.mem_cons_self)
      unfold each
      rw [run_bind]
      rcases hrun : (file c view path).run r with ⟨_ | found, r'⟩
      · rw [hrun] at hfile
        exact hfile
      · rw [hrun] at hfile
        have hrest := ih hfile fun path' h' => step path' (List.mem_cons_of_mem _ h')
        dsimp only
        rw [run_bind]
        rcases hrun' : (each c view paths).run r' with ⟨_ | count, r''⟩
        · rw [hrun'] at hrest
          exact hrest
        · rw [hrun'] at hrest
          exact hrest

/-- What adding the rules of any script under the root keeps, and noting the scan as well,
is kept by a full scan. -/
theorem all_induction (h : P r)
    (step : ∀ path, isScript path = true → ∀ rules, rulesAt c view path = .ok rules →
      ∀ r, P r → P (r.addAll rules path))
    (note : ∀ r, P r → P r.noteScan) :
    P ((all c view).run r).2 := by
  unfold all
  rw [run_bind, run_lift]
  cases view.list c.root with
  | error e => exact h
  | ok files =>
      have heach : P ((each c view (files.filter isScript)).run r).2 :=
        each_induction h fun path _ => step path
      dsimp only
      rw [run_bind]
      rcases hrun : (each c view (files.filter isScript)).run r with ⟨_ | withStyles, r'⟩
      · rw [hrun] at heach
        exact heach
      · rw [hrun] at heach
        exact note r' heach

end

theorem grows_file (c : Config) (view : FileView) (path : String) (r : Registry) :
    r.Grows ((file c view path).run r).2 :=
  file_induction (.refl r) fun _ rules _ r' h => h.trans (Registry.grows_addAll rules path r')

theorem grows_each (c : Config) (view : FileView) (paths : List String) (r : Registry) :
    r.Grows ((each c view paths).run r).2 :=
  each_induction (.refl r) fun path _ _ rules _ r' h =>
    h.trans (Registry.grows_addAll rules path r')

theorem grows_all (c : Config) (view : FileView) (r : Registry) :
    r.Grows ((all c view).run r).2 :=
  all_induction (.refl r) (fun path _ rules _ r' h => h.trans (Registry.grows_addAll rules path r'))
    fun r' h => h.trans (Registry.grows_noteScan r')

/-- The scan of a single file does not make up for styles that have been dropped. -/
theorem stale_file (c : Config) (view : FileView) (path : String) (r : Registry) :
    ((file c view path).run r).2.stale = r.stale :=
  file_induction (P := fun r' => r'.stale = r.stale) rfl fun _ rules _ r' h =>
    (Registry.stale_addAll rules path r').trans h

/-- Nor does the scan of a text. -/
theorem stale_source (c : Config) (code path : String) (r : Registry) :
    ((source c code path).run r).2.stale = r.stale := by
  cases hs : isScript path with
  | false =>
      simp only [source, hs, Bool.not_false, if_true]
      rfl
  | true =>
      rw [source_run hs]
      cases Script.rulesOf c code path with
      | error e => rfl
      | ok rules => exact Registry.stale_addAll rules path r

/-! ## What a scan covers -/

/-- A registry holds the rules of every script under the root, as far as it has them. -/
def Covers (c : Config) (view : FileView) (r : Registry) : Prop :=
  ∀ files, view.list c.root = .ok files → ∀ path ∈ files, isScript path = true →
    ∀ rules, rulesAt c view path = .ok rules → r.Holds rules path

/-- After a scan of a file the registry holds the rules that it has, whether the scan has
succeeded or not. -/
theorem holds_file (hs : isScript path = true) (hr : rulesAt c view path = .ok rules) :
    ((file c view path).run r).2.Holds rules path := by
  rw [file_run hs, hr]
  exact Registry.addAll_holds rules path r

/-- If all files have been gone through, the registry holds the rules of each. -/
theorem holds_each {count : Nat} (h : (each c view paths).run r = (.ok count, r')) :
    ∀ path ∈ paths, isScript path = true → ∀ rules, rulesAt c view path = .ok rules →
      r'.Holds rules path := by
  induction paths generalizing r r' count with
  | nil => exact fun _ hp => absurd hp List.not_mem_nil
  | cons first rest ih =>
      obtain ⟨found, r₁, hfirst, h⟩ := exists_of_run_bind h
      obtain ⟨count', r₂, hrest, h⟩ := exists_of_run_bind h
      cases h
      intro path hp hs rules hr
      rcases List.mem_cons.mp hp with rfl | hp
      · -- The rules of the first file have to last through the rest.
        have hheld : r₁.Holds rules path := by
          have := holds_file (r := r) hs hr
          rwa [hfirst] at this
        have hg := grows_each c view rest r₁
        rw [hrest] at hg
        exact hheld.grow hg
      · exact ih hrest path hp hs rules hr

/-- A full scan covers every script, and the registry is not stale after it. -/
theorem covers_of_all {tally : ScanTally} (h : (all c view).run r = (.ok tally, r')) :
    r'.stale = false ∧ Covers c view r' := by
  obtain ⟨files, r₁, hf, h⟩ := exists_of_run_bind h
  rw [run_lift] at hf
  obtain ⟨withStyles, r₂, hrun, h⟩ := exists_of_run_bind h
  cases h
  refine ⟨rfl, fun files' hf' path hp hs rules hr => ?_⟩
  rw [hf'] at hf
  cases hf
  exact (holds_each hrun path (List.mem_filter.mpr ⟨hp, hs⟩) hs rules hr).grow
    (Registry.grows_noteScan r₂)

/-- Scripts are gone through to the end exactly if each of them has rules. -/
theorem exists_each_iff (hs : ∀ path ∈ paths, isScript path = true) :
    (∃ count, ((each c view paths).run r).1 = .ok count) ↔
      ∀ path ∈ paths, ∃ rules, rulesAt c view path = .ok rules := by
  induction paths generalizing r with
  | nil => exact iff_of_true ⟨0, rfl⟩ nofun
  | cons first rest ih =>
      rw [List.forall_mem_cons]
      unfold each
      rw [run_bind, file_run (hs first List.mem_cons_self)]
      cases rulesAt c view first with
      | error fault => exact iff_of_false nofun nofun
      | ok rules =>
          have hrest : ∀ path ∈ rest, isScript path = true :=
            fun path hp => hs path (List.mem_cons_of_mem _ hp)
          rw [and_iff_right ⟨rules, rfl⟩, ← ih hrest]
          dsimp only [collect]
          rw [run_bind]
          rcases (each c view rest).run (r.addAll rules first) with ⟨fault | count, r'⟩
          · exact iff_of_false nofun nofun
          · exact iff_of_true ⟨_, rfl⟩ ⟨count, rfl⟩

/-- A full scan succeeds exactly if every script under the root has rules, whatever the registry
holds. -/
theorem exists_all_iff {files : List String} (hlist : view.list c.root = .ok files) :
    (∃ tally, ((all c view).run r).1 = .ok tally) ↔
      ∀ path ∈ files, isScript path = true → ∃ rules, rulesAt c view path = .ok rules := by
  have heach : (∃ count, ((each c view (files.filter isScript)).run r).1 = .ok count) ↔
      ∀ path ∈ files, isScript path = true → ∃ rules, rulesAt c view path = .ok rules := by
    rw [exists_each_iff fun path hp => (List.mem_filter.mp hp).2]
    exact List.forall_mem_filter
  rw [← heach]
  unfold all
  rw [run_bind, run_lift, hlist]
  dsimp only
  rw [run_bind]
  rcases (each c view (files.filter isScript)).run r with ⟨fault | count, r'⟩
  · exact iff_of_false nofun nofun
  · exact iff_of_true ⟨_, rfl⟩ ⟨count, rfl⟩

/-- A full scan that fails does not make up for styles that have been dropped. -/
theorem stale_all_of_error {e : StyleError} (h : (all c view).run r = (.error e, r')) :
    r'.stale = r.stale := by
  unfold all at h
  rw [run_bind, run_lift] at h
  cases hf : view.list c.root with
  | error e =>
      rw [hf] at h
      cases h
      rfl
  | ok files =>
      rw [hf] at h
      dsimp only at h
      have hstale : ((each c view (files.filter isScript)).run r).2.stale = r.stale :=
        each_induction (P := fun r' => r'.stale = r.stale) rfl fun path _ _ rules _ r' h' =>
          (Registry.stale_addAll rules path r').trans h'
      rw [run_bind] at h
      rcases hrun : (each c view (files.filter isScript)).run r with ⟨_ | withStyles, r₁⟩
      · rw [hrun] at h hstale
        cases h
        exact hstale
      · rw [hrun] at h
        cases h

end StaticStyle.Scan
