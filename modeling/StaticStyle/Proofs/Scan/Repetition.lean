import StaticStyle.Proofs.Scan.Gathered

/-!
# Scans that are repeated

A full scan that gets to the end has put everything in its place, so another one over the same
files finds nothing to change, whatever the registry held before the first
(`Scan.all_again`).  It is not enough that the classes are there: where several calls write
one class with different declarations, each of the scans goes through all of them again, and
the last one has to come out on top both times (`Registry.addEach_addEach`).

The tally of a scan counts the scripts and those that have a style call (`Scan.hasCalls`), and
not what has changed.
-/

namespace StaticStyle.Scan

open Running

variable {c : Config} {view : FileView} {path : String} {paths : List String}
  {r r' : Registry}

/-! ## What is counted -/

/-- Whether a file is a script with a style call. -/
def hasCalls (c : Config) (view : FileView) (path : String) : Bool :=
  isScript path &&
    match view.read path >>= fun code => Script.read c.function code path with
    | .ok script => !script.calls.isEmpty
    | .error _ => false

theorem hasCalls_of_read {code : String} {script : Script} (hs : isScript path = true)
    (hcode : view.read path = .ok code) (hread : Script.read c.function code path = .ok script) :
    hasCalls c view path = !script.calls.isEmpty := by
  have hscript : (view.read path >>= fun code => Script.read c.function code path) = .ok script :=
    bind_eq_ok_iff.mpr ⟨code, hcode, hread⟩
  rw [hasCalls, hs, Bool.true_and, hscript]

theorem hasCalls_iff :
    hasCalls c view path = true ↔ isScript path = true ∧ ∃ code script,
      view.read path = .ok code ∧ Script.read c.function code path = .ok script ∧
        script.calls ≠ [] := by
  constructor
  · intro h
    obtain ⟨hs, hcalls⟩ := Bool.and_eq_true_iff.mp h
    rcases hscript : view.read path >>= fun code => Script.read c.function code path with
      fault | script
    · rw [hscript] at hcalls
      cases hcalls
    · rw [hscript] at hcalls
      obtain ⟨code, hcode, hread⟩ := bind_eq_ok_iff.mp hscript
      refine ⟨hs, code, script, hcode, hread, ?_⟩
      rwa [Bool.not_eq_true', List.isEmpty_eq_false_iff] at hcalls
  · rintro ⟨hs, code, script, hcode, hread, hcalls⟩
    rwa [hasCalls_of_read hs hcode hread, Bool.not_eq_true', List.isEmpty_eq_false_iff]

/-- A file that can be scanned has style calls if the scan says so. -/
theorem found_eq_hasCalls {found : Bool} (h : (file c view path).run r = (.ok found, r')) :
    found = hasCalls c view path := by
  cases hs : isScript path with
  | false =>
      rw [file_run_other hs] at h
      cases h
      rw [hasCalls, hs, Bool.false_and]
  | true =>
      rw [file_run hs] at h
      cases hr : rulesAt c view path with
      | error fault =>
          rw [hr] at h
          cases h
      | ok rules =>
          rw [hr] at h
          cases h
          obtain ⟨code, hcode, hrules⟩ := bind_eq_ok_iff.mp hr
          obtain ⟨script, hread, hcalls⟩ := Script.rulesOf_eq_ok_iff.mp hrules
          rw [hasCalls_of_read hs hcode hread, Bool.eq_iff_iff, Bool.not_eq_true',
            Bool.not_eq_true', List.isEmpty_eq_false_iff, List.isEmpty_eq_false_iff, ne_eq, ne_eq,
            Script.rules_eq_nil_iff hcalls]

theorem count_eq_of_each {count : Nat} (h : (each c view paths).run r = (.ok count, r')) :
    count = paths.countP (hasCalls c view) := by
  induction paths generalizing r r' count with
  | nil =>
      cases h
      rfl
  | cons path paths ih =>
      obtain ⟨found, r₁, hfirst, h⟩ := exists_of_run_bind h
      obtain ⟨count', r₂, hrest, h⟩ := exists_of_run_bind h
      cases h
      rw [List.countP_cons, ← ih hrest, found_eq_hasCalls hfirst]
      split
      · rfl
      · rfl

/-! ## The second scan -/

/-- A full scan that has succeeded can be repeated, with the same tally, and leaves the registry as
the first has left it.  The tally counts the scripts that are listed, and among them those with a
style call. -/
theorem all_again {tally : ScanTally} (h : (all c view).run r = (.ok tally, r')) :
    (all c view).run r' = (.ok tally, r') ∧
      ∃ files, view.list c.root = .ok files ∧
        tally = ⟨files.countP isScript, files.countP (hasCalls c view), r'.styles.length⟩ := by
  constructor
  · rcases all_cases c view with ⟨fault, hrun⟩ | ⟨scanned, withStyles, hrun⟩
    · rw [hrun] at h
      cases h
    · rw [hrun] at h
      cases h
      have hsame : ((r.addEach (found c view)).noteScan).addEach (found c view) =
          (r.addEach (found c view)).noteScan := by
        rw [Registry.noteScan_addEach, Registry.addEach_addEach]
      rw [hrun, hsame]
      rfl
  · obtain ⟨files, r₁, hlist, h⟩ := exists_of_run_bind h
    rw [run_lift] at hlist
    obtain ⟨withStyles, r₂, heach, h⟩ := exists_of_run_bind h
    cases h
    refine ⟨files, congrArg Prod.fst hlist, ?_⟩
    have hcount : withStyles = files.countP (hasCalls c view) := by
      rw [count_eq_of_each heach, List.countP_filter]
      refine List.countP_congr fun path _ => ?_
      cases hs : isScript path with
      | false => simp [hasCalls, hs]
      | true => simp
    rw [hcount, ← List.countP_eq_length_filter]

/-- A build with a theme that says nothing. -/
def plain : Config := { Config.default with theme := some .null }

/-- Three scripts, of which the first two have one style, in two declarations. -/
def shared : FileView :=
  Files.view [("./a.ts", "css(\x7bmargin: 0\x7d)"), ("./b.ts", "css((t) => (\x7bmargin: 0\x7d))"),
    ("./c.js", ""), ("./d.md", "")]

/-- The scan of files that share a style can be repeated, also if the style has been there before. -/
theorem all_again_shared :
    ∃ r', (all plain shared).run ((source plain "css((t) => (\x7bmargin: 0\x7d))" "./e.ts").run
        .empty).2 = (.ok ⟨3, 2, 1⟩, r') ∧
      (all plain shared).run r' = (.ok ⟨3, 2, 1⟩, r') ∧
        ∃ files, shared.list plain.root = .ok files ∧ ⟨3, 2, 1⟩ =
          ScanTally.mk (files.countP isScript) (files.countP (hasCalls plain shared))
            r'.styles.length := by
  have hscan : ((all plain shared).run ((source plain "css((t) => (\x7bmargin: 0\x7d))" "./e.ts").run
      .empty).2).1.toOption = some ⟨3, 2, 1⟩ := by decide +kernel
  have hrun := run_of_toOption hscan
  exact ⟨_, hrun, all_again hrun⟩

end StaticStyle.Scan
