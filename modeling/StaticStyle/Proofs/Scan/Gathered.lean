import StaticStyle.Proofs.Registry.History
import StaticStyle.Proofs.Scan

/-!
# What a full scan gathers

A scan decides what it adds without a look at the registry.  `Scan.gathered` is the row of
rules that it comes across before the first fault, each with its file, and
`Scan.all_cases` says that a full scan adds this row to any registry, whether it gets to
the end or not, and that whether it does is the same for all registries.

The rules are those of the scripts that the scan gets through (`Scan.passed`), all of them
(`Scan.mem_found_iff`).
-/

namespace StaticStyle.Scan

open Running

variable {c : Config} {view : FileView} {path : String} {paths : List String} {e : ClassRule}
  {r : Registry}

/-- The rules of some scripts up to the first that has a fault, each with its script. -/
def gathered (c : Config) (view : FileView) : List String → List (ClassRule × String)
  | [] => []
  | path :: paths =>
      match rulesAt c view path with
      | .ok rules => (rules.map fun e => (e, path)) ++ gathered c view paths
      | .error _ => []

/-- The rules of the scripts under the root up to the first that has a fault. -/
def found (c : Config) (view : FileView) : List (ClassRule × String) :=
  match view.list c.root with
  | .ok files => gathered c view (files.filter isScript)
  | .error _ => []

/-- Whether a script has rules, and not a fault. -/
def scans (c : Config) (view : FileView) (path : String) : Bool :=
  (rulesAt c view path).toOption.isSome

/-- The scripts under the root that a full scan gets through. -/
def passed (c : Config) (view : FileView) : List String :=
  match view.list c.root with
  | .ok files => (files.filter isScript).takeWhile (scans c view)
  | .error _ => []

theorem mem_gathered_iff :
    (e, path) ∈ gathered c view paths ↔
      path ∈ paths.takeWhile (scans c view) ∧
        ∃ rules, rulesAt c view path = .ok rules ∧ e ∈ rules := by
  induction paths with
  | nil => exact iff_of_false List.not_mem_nil fun h => List.not_mem_nil h.1
  | cons first rest ih =>
      cases hr : rulesAt c view first with
      | error fault =>
          have hscans : scans c view first = false := by rw [scans, hr]; rfl
          rw [gathered, hr, List.takeWhile_cons, hscans]
          exact iff_of_false List.not_mem_nil fun h => List.not_mem_nil h.1
      | ok rules =>
          have hscans : scans c view first = true := by rw [scans, hr]; rfl
          rw [gathered, hr, List.takeWhile_cons, hscans, if_pos rfl, List.mem_append, ih,
            List.mem_cons, List.mem_map]
          constructor
          · rintro (⟨e', he, heq⟩ | ⟨hpath, hrules⟩)
            · cases heq
              exact ⟨Or.inl rfl, rules, hr, he⟩
            · exact ⟨Or.inr hpath, hrules⟩
          · rintro ⟨rfl | hpath, hrules⟩
            · obtain ⟨rules', hr', he⟩ := hrules
              cases hr.symm.trans hr'
              exact Or.inl ⟨e, he, rfl⟩
            · exact Or.inr ⟨hpath, hrules⟩

/-- What a full scan finds are the rules of the scripts that it gets through. -/
theorem mem_found_iff :
    (e, path) ∈ found c view ↔
      path ∈ passed c view ∧ ∃ rules, rulesAt c view path = .ok rules ∧ e ∈ rules := by
  unfold found passed
  cases view.list c.root with
  | error fault => exact iff_of_false List.not_mem_nil fun h => List.not_mem_nil h.1
  | ok files => exact mem_gathered_iff

/-- Going through scripts adds what is gathered of them, and the answer does not depend on the
registry. -/
theorem each_run (c : Config) (view : FileView) (hs : ∀ path ∈ paths, isScript path = true) :
    ∃ answer, ∀ r, (each c view paths).run r = (answer, r.addEach (gathered c view paths)) := by
  induction paths with
  | nil => exact ⟨.ok 0, fun _ => rfl⟩
  | cons path paths ih =>
      obtain ⟨answer, hrest⟩ := ih fun path' h => hs path' (List.mem_cons_of_mem _ h)
      have hpath := hs path List.mem_cons_self
      cases hr : rulesAt c view path with
      | error fault =>
          refine ⟨.error fault, fun r => ?_⟩
          rw [each, run_bind, file_run hpath, hr, gathered, hr]
          rfl
      | ok rules =>
          refine ⟨answer.map fun count => if (!rules.isEmpty) = true then count + 1 else count,
            fun r => ?_⟩
          rw [each, run_bind, file_run hpath, hr, gathered, hr, Registry.addEach_append,
            ← Registry.addAll_eq_addEach]
          dsimp only [collect]
          rw [run_bind, hrest]
          cases answer with
          | error fault => rfl
          | ok count => rfl

/-- A full scan adds what it finds, and then it fails or notes that it has got to the end; which
of the two does not depend on the registry. -/
theorem all_cases (c : Config) (view : FileView) :
    (∃ fault, ∀ r, (all c view).run r = (.error fault, r.addEach (found c view))) ∨
      ∃ scanned withStyles, ∀ r, (all c view).run r =
        (.ok ⟨scanned, withStyles, (r.addEach (found c view)).styles.length⟩,
          (r.addEach (found c view)).noteScan) := by
  cases hf : view.list c.root with
  | error fault =>
      refine Or.inl ⟨fault, fun r => ?_⟩
      rw [all, run_bind, run_lift, found, hf]
      rfl
  | ok files =>
      obtain ⟨answer, heach⟩ := each_run c view fun path (hp : path ∈ files.filter isScript) =>
        (List.mem_filter.mp hp).2
      cases answer with
      | error fault =>
          refine Or.inl ⟨fault, fun r => ?_⟩
          rw [all, run_bind, run_lift, found, hf]
          dsimp only
          rw [run_bind, heach r]
      | ok withStyles =>
          refine Or.inr ⟨(files.filter isScript).length, withStyles, fun r => ?_⟩
          rw [all, run_bind, run_lift, found, hf]
          exact run_bind_of_ok (heach r) _

end StaticStyle.Scan
