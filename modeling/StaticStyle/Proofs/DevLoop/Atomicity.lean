import StaticStyle.Proofs.DevLoop.Freshness

/-!
# Scans that fail

The styles of a script are collected as a whole or not at all, whichever of its calls is at fault
and whatever is wrong with it.  So an update of a single file that fails leaves a loop as it was
(`DevLoop.update_run_of_error`).

A full scan is not a whole in this sense.  It stops at the first script with a fault, and the
registry is then what the scans of the scripts in front of it have made of it, one after the other
(`Scan.exists_of_all_error`).

`DevLoop.scans_atomic` puts these together.
-/

namespace StaticStyle

open Running

/-! ## The rules of one file -/

namespace Registry

variable {file : String}

/-- The rules of a file are put under their classes in their order. -/
theorem styles_addAll (rules : List ClassRule) (file : String) (r : Registry) :
    (r.addAll rules file).styles =
      rules.foldl (fun styles e => styles.put e.className e) r.styles := by
  induction rules generalizing r with
  | nil => rfl
  | cons e rules ih => exact ih (r.add e file)

theorem roots_addAll (rules : List ClassRule) (file : String) (r : Registry) :
    (r.addAll rules file).roots = r.roots :=
  addAll_induction (P := fun r' => r'.roots = r.roots) (fun _ _ _ h => h) rfl

/-- A file that is a dependency already stays the dependency that it is. -/
theorem dependencies_addAll_of_mem (rules : List ClassRule) {r : Registry}
    (h : file ∈ r.dependencies) : (r.addAll rules file).dependencies = r.dependencies := by
  refine addAll_induction (P := fun r' => r'.dependencies = r.dependencies) ?_ rfl
  intro e _ r' hsame
  have hmem : file ∈ r'.dependencies := hsame ▸ h
  exact (if_pos hmem).trans hsame

/-- However many rules a file has, it is one dependency, and none if it has no rules. -/
theorem dependencies_addAll (rules : List ClassRule) (file : String) (r : Registry) :
    (r.addAll rules file).dependencies =
      if rules = [] then r.dependencies else r.dependencies.enrol file := by
  cases rules with
  | nil => rfl
  | cons e rules =>
      rw [if_neg (List.cons_ne_nil _ _)]
      exact dependencies_addAll_of_mem rules (Roll.mem_enrol_self file r.dependencies)

/-- What the rules of a file make of a registry. -/
theorem addAll_eq (rules : List ClassRule) (file : String) (r : Registry) :
    r.addAll rules file =
      { r with
        styles := rules.foldl (fun styles e => styles.put e.className e) r.styles
        dependencies := if rules = [] then r.dependencies else r.dependencies.enrol file } := by
  rw [← styles_addAll rules file r, ← dependencies_addAll rules file r,
    ← roots_addAll rules file r, ← stale_addAll rules file r]

end Registry

/-! ## Scans -/

namespace Scan

variable {c : Config} {view : FileView} {code path : String} {paths : List String}
  {fault : StyleError} {found : Bool} {r r' : Registry}

/-- A text with a fault adds nothing. -/
theorem source_run_of_error (hs : isScript path = true)
    (h : (source c code path).run r = (.error fault, r')) : r' = r := by
  rw [source_run hs] at h
  cases hrules : Script.rulesOf c code path with
  | error e =>
      rw [hrules] at h
      cases h
      rfl
  | ok rules =>
      rw [hrules] at h
      cases h

/-- A text without a fault adds the rules of its calls. -/
theorem exists_of_source_ok (hs : isScript path = true)
    (h : (source c code path).run r = (.ok found, r')) :
    ∃ script rules, Script.read c.function code path = .ok script ∧
      script.rules c path = .ok rules ∧ found = !rules.isEmpty ∧ r' = r.addAll rules path := by
  rw [source_run hs] at h
  cases hrules : Script.rulesOf c code path with
  | error e =>
      rw [hrules] at h
      cases h
  | ok rules =>
      rw [hrules] at h
      cases h
      obtain ⟨script, hread, hcalls⟩ := Script.rulesOf_eq_ok_iff.mp hrules
      exact ⟨script, rules, hread, hcalls, rfl, rfl⟩

theorem file_run_of_error (h : (file c view path).run r = (.error fault, r')) : r' = r := by
  rcases file_cases c view path r with hok | hsame
  · rw [h] at hok
    cases hok
  · rw [h] at hsame
    exact hsame

/-- Whether a file can be scanned is not a matter of the registry. -/
theorem file_run_fst (c : Config) (view : FileView) (path : String) (r r' : Registry) :
    ((file c view path).run r).1 = ((file c view path).run r').1 := by
  cases hs : isScript path with
  | false => rw [file_run_other hs, file_run_other hs]
  | true =>
      rw [file_run hs, file_run hs]
      cases rulesAt c view path with
      | error e => rfl
      | ok rules => rfl

/-- A registry after the scans of some files, one after the other. -/
def throughEach (c : Config) (view : FileView) (paths : List String) (r : Registry) : Registry :=
  paths.foldl (fun r path => ((file c view path).run r).2) r

/-- Going through files fails at one of them, when those in front of it have been scanned. -/
theorem exists_of_each_error (h : (each c view paths).run r = (.error fault, r')) :
    ∃ before path after, paths = before ++ path :: after ∧
      (∀ earlier ∈ before, ∃ found, ((file c view earlier).run r).1 = .ok found) ∧
      ((file c view path).run r').1 = .error fault ∧ r' = throughEach c view before r := by
  induction paths generalizing r with
  | nil => cases h
  | cons first rest ih =>
      rw [each, run_bind] at h
      rcases hfirst : (file c view first).run r with ⟨fault' | found, r₁⟩
      · rw [hfirst] at h
        cases h
        have hsame : r' = r := file_run_of_error hfirst
        refine ⟨[], first, rest, rfl, List.forall_mem_nil _, ?_, hsame⟩
        rw [hsame, hfirst]
      · rw [hfirst] at h
        dsimp only at h
        rw [run_bind] at h
        rcases hrest : (each c view rest).run r₁ with ⟨fault' | count, r₂⟩
        · rw [hrest] at h
          cases h
          obtain ⟨before, path, after, rfl, hearlier, hpath, hthrough⟩ := ih hrest
          refine ⟨first :: before, path, after, rfl, ?_, hpath, ?_⟩
          · rw [List.forall_mem_cons]
            refine ⟨⟨found, by rw [hfirst]⟩, fun earlier hmem => ?_⟩
            rw [file_run_fst c view earlier r r₁]
            exact hearlier earlier hmem
          · rw [hthrough, throughEach, throughEach, List.foldl_cons, hfirst]
        · rw [hrest] at h
          cases h

/-- A full scan fails if the files cannot be listed, and then it does nothing, or else at a
script. -/
theorem exists_of_all_error (h : (all c view).run r = (.error fault, r')) :
    (view.list c.root = .error fault ∧ r' = r) ∨
      ∃ files before path after, view.list c.root = .ok files ∧
        files.filter isScript = before ++ path :: after ∧
        (∀ earlier ∈ before, ∃ found, ((file c view earlier).run r).1 = .ok found) ∧
        ((file c view path).run r').1 = .error fault ∧ r' = throughEach c view before r := by
  rw [all, run_bind, run_lift] at h
  cases hlist : view.list c.root with
  | error fault' =>
      rw [hlist] at h
      cases h
      exact Or.inl ⟨rfl, rfl⟩
  | ok files =>
      rw [hlist] at h
      dsimp only at h
      rw [run_bind] at h
      rcases hrun : (each c view (files.filter isScript)).run r with ⟨fault' | count, r₁⟩
      · rw [hrun] at h
        cases h
        obtain ⟨before, path, after, hsplit, hfiles⟩ := exists_of_each_error hrun
        exact Or.inr ⟨files, before, path, after, rfl, hsplit, hfiles⟩
      · rw [hrun] at h
        cases h

end Scan

/-! ## The loop -/

namespace DevLoop

variable {c : Config} {view : FileView} {file : String} {fault : StyleError} {s s' : DevLoop}

/-- An update of a single file that fails leaves everything as it was. -/
theorem update_run_of_error (hfresh : s.freshness ≠ .stale)
    (h : (update c view file).run s = (.error fault, s')) : s' = s := by
  rw [update_run (stale_of_freshness hfresh)] at h
  rcases hrun : (Scan.file c view file).run s.registry with ⟨fault' | _ | _, r⟩
  · rw [hrun] at h
    cases h
    rw [Scan.file_run_of_error hrun]
  · rw [hrun] at h
    cases h
  · rw [hrun] at h
    cases h

/-- What scans do that fail, and what the scan of a text does that does not. -/
structure AtomicScans (c : Config) : Prop where
  /-- If the scan of a script fails, the registry is as it was. -/
  source_error : ∀ code file fault r r', Scan.isScript file = true →
    (Scan.source c code file).run r = (.error fault, r') → r' = r
  /-- If it does not, the registry has got the rules of all calls of the script in their order,
  and nothing else, and the script has become a dependency if it has a call. -/
  source_ok : ∀ code file found r r', Scan.isScript file = true →
    (Scan.source c code file).run r = (.ok found, r') →
      ∃ script rules, Script.read c.function code file = .ok script ∧
        List.Forall₂ (fun call e => script.ruleOf c file call = .ok e) script.calls rules ∧
        (found = true ↔ script.calls ≠ []) ∧
        r' = { r with
          styles := rules.foldl (fun styles e => styles.put e.className e) r.styles
          dependencies :=
            if script.calls = [] then r.dependencies else r.dependencies.enrol file }
  /-- If the update of a loop that is not stale fails, the loop is as it was. -/
  update_error : ∀ view file fault s s', s.freshness ≠ .stale →
    (update c view file).run s = (.error fault, s') → s' = s
  /-- If a full scan fails, the files could not be listed, or one of the scripts is at fault, and
  then the registry has the same mark and is what the scans of those in front of it have made
  of it. -/
  all_error : ∀ view fault r r', (Scan.all c view).run r = (.error fault, r') →
    r'.stale = r.stale ∧
      ((view.list c.root = .error fault ∧ r' = r) ∨
        ∃ files before path after, view.list c.root = .ok files ∧
          files.filter Scan.isScript = before ++ path :: after ∧
          (∀ earlier ∈ before, ∃ found, ((Scan.file c view earlier).run r).1 = .ok found) ∧
          ((Scan.file c view path).run r').1 = .error fault ∧
          r' = Scan.throughEach c view before r)

theorem scans_atomic (c : Config) : AtomicScans c where
  source_error := by
    intro code file fault r r' hs h
    exact Scan.source_run_of_error hs h
  source_ok := by
    intro code file found r r' hs h
    obtain ⟨script, rules, hread, hcalls, rfl, rfl⟩ := Scan.exists_of_source_ok hs h
    have hnil : rules = [] ↔ script.calls = [] := Script.rules_eq_nil_iff hcalls
    refine ⟨script, rules, hread, Script.rules_eq_ok_iff.mp hcalls, ?_, ?_⟩
    · rw [Bool.not_eq_true', List.isEmpty_eq_false_iff, ne_eq, hnil]
    · simp only [Registry.addAll_eq, hnil]
  update_error := by
    intro view file fault s s' hfresh h
    exact update_run_of_error hfresh h
  all_error := by
    intro view fault r r' h
    exact ⟨Scan.stale_all_of_error h, Scan.exists_of_all_error h⟩

-- The second call of the second script is at fault, so its first call adds nothing, and the third
-- script is not read.
example :
    ((Scan.all Config.default (Files.view [("./a.ts", "css(\x7bmargin: 0\x7d)"),
      ("./b.ts", "css(\x7b\x7d); css(f())"), ("./c.ts", "css(\x7bmargin: 1\x7d)")])).run
        .empty).2.styles.names = ["flow-38965f9b"] := by
  decide +kernel

end DevLoop

end StaticStyle
