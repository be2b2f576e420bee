import StaticStyle.Proofs.Script.Extent
import StaticStyle.Proofs.Script.Sites
import StaticStyle.Proofs.Script.Verdicts

/-!
# No edit is lost

The edits of a replacement do not overlap: the calls that are listed stand apart from each
other and from the imports, and what goes with an import does not reach what stands behind
it.  So each of them is applied (`Script.exists_edits`).
-/

namespace StaticStyle

open StaticStyle.Syntax
open StaticStyle.Text

variable {f : StyleFunction} {source : List Char} {lo hi : Nat} {t u v program : Tree}
  {r r' : Span}

/-! ## Imports -/

/-- Whether a node is an import declaration that imports the style function more than
once. -/
def StyleFunction.isImportedTwice (f : StyleFunction) (t : Tree) : Bool :=
  isImport t && decide (1 < (t.children.filter (importsAs f.callee)).length)

theorem imports_ofTree (f : StyleFunction) (source : List Char) (program : Tree) :
    (Script.ofTree f source program).imports =
      (outermost isImport (f.isCalledBy source) program).flatMap f.importsOf := rfl

theorem isLandmark_of_isImport (h : isImport t = true) : isLandmark t = true := by
  unfold isImport at h
  unfold isLandmark
  split at h
  · next hk => rw [hk]
  · cases h

theorem isImport_of_isCalledBy (h : f.isCalledBy source t = true) : isImport t = false := by
  unfold StyleFunction.isCalledBy at h
  split at h
  · rfl
  · cases h

theorem isImportName_of_importsAs {name : String} (h : importsAs name t = true) :
    isImportName t = true := by
  unfold importsAs at h
  split at h
  · rfl
  · cases h

theorem length_importsOf_le (h : f.isImportedTwice t = false) (hi : isImport t = true) :
    (f.importsOf t).length ≤ 1 := by
  rw [StyleFunction.isImportedTwice, hi, Bool.true_and, decide_eq_false_iff_not, Nat.not_lt] at h
  unfold StyleFunction.importsOf
  split
  · split
    · dsimp only
      rw [List.length_map, List.filter_filter]
      refine Nat.le_trans (List.Sublist.length_le ?_) h
      refine List.monotone_filter_right _ fun u hu => ?_
      exact (Bool.and_eq_true_iff.mp hu).1
    · exact Nat.zero_le 1
  · exact Nat.zero_le 1

/-- Each import of the function has a part of the source that goes with it, and this does
not reach beyond the declaration and the blanks behind it. -/
theorem importEdit_reaches (h : t.Placed source lo hi) {i : StyleImport}
    (hi : i ∈ f.importsOf t) :
    ∃ r, Script.importEdit source i = some (.delete r) ∧ Reaches source t.span r := by
  obtain ⟨k, s, cs⟩ := t
  unfold StyleFunction.importsOf at hi
  split at hi
  case h_2 => cases hi
  case h_1 from_ typeOnly hk =>
    cases hk
    split at hi
    case isFalse => cases hi
    obtain ⟨name, hname, rfl⟩ := List.mem_map.mp hi
    obtain ⟨hmem, hname⟩ := List.mem_filter.mp hname
    obtain ⟨⟨hstands, -, hbraced⟩, -⟩ := h
    unfold Script.importEdit
    split
    · obtain ⟨r, hr, hreaches⟩ := importExtent_reaches hstands.isPart
      exact ⟨r, congrArg (Option.map Edit.delete) hr, hreaches⟩
    · obtain ⟨r, hr, hreaches⟩ := nameExtent_reaches
        (hbraced name (List.mem_filter.mp hmem).1 (isImportName_of_importsAs hname))
      exact ⟨r, congrArg (Option.map Edit.delete) hr, hreaches⟩

/-! ## Landmarks -/

/-- What reaches no further than two landmarks does not overlap. -/
theorem apart_of_reaches (hu : Solid source u.span.start) (hv : Solid source v.span.start)
    (h : Apart u.span v.span) (hr : Reaches source u.span r) (hr' : Reaches source v.span r') :
    Apart r r' := by
  rcases h with h | h
  · exact Or.inl (Nat.le_trans (hr.upper _ h hv) hr'.lower)
  · exact Or.inr (Nat.le_trans (hr'.upper _ h hu) hr.lower)

/-- The calls that are listed stand apart from the imports. -/
theorem apart_of_mem (h : program.Placed source lo hi)
    (hu : u ∈ outermost (f.isCalledBy source) isImport program)
    (hv : v ∈ outermost isImport (f.isCalledBy source) program) : Apart u.span v.span := by
  -- Both are found in one walk for calls and imports.
  let both := outermost (fun t => f.isCalledBy source t || isImport t) (fun _ => false) program
  have hcalls : both.filter (f.isCalledBy source) =
      outermost (f.isCalledBy source) isImport program := by
    rw [filter_outermost]
    simp only [Bool.or_false]
  have himports : both.filter isImport = outermost isImport (f.isCalledBy source) program := by
    simp only [both, Bool.or_comm (f.isCalledBy source _)]
    rw [filter_outermost]
    simp only [Bool.or_false]
  have happart : both.Pairwise fun u v => Apart u.span v.span := by
    refine (h.pairwise_outermost fun t ht => ?_).imp Or.inl
    rcases Bool.or_eq_true_iff.mp ht with ht | ht
    · exact isLandmark_of_isCalledBy ht
    · exact isLandmark_of_isImport ht
  rw [← hcalls] at hu
  rw [← himports] at hv
  obtain ⟨hu, hcall⟩ := List.mem_filter.mp hu
  obtain ⟨hv, himport⟩ := List.mem_filter.mp hv
  have hsymm : Std.Symm fun u v : Tree => Apart u.span v.span := ⟨fun _ _ => Apart.symm⟩
  refine happart.forall hu hv ?_
  rintro rfl
  rw [isImport_of_isCalledBy hcall] at himport
  cases himport

/-! ## Edits -/

namespace Script

open Running

variable {c : Config} {registry : Registry} {code file : String} {e e' : Edit}
  {verdicts : List (StyleCall × Option String)} {reports reports' : List UnknownStyle}
  {replaced : ReplacedScript}

theorem pairwise_of_length_le_one {α : Type} {R : α → α → Prop} {l : List α}
    (h : l.length ≤ 1) : l.Pairwise R := by
  match l with
  | [] => exact .nil
  | [a] => exact List.pairwise_singleton R a
  | a :: b :: l =>
      rw [List.length_cons, List.length_cons] at h
      omega

/-- If each item has a result, the results are all there is. -/
theorem map_some_filterMap {α β : Type} {g : α → Option β} {l : List α}
    (h : ∀ a ∈ l, ∃ b, g a = some b) : l.map g = (l.filterMap g).map some := by
  induction l with
  | nil => rfl
  | cons a l ih =>
      obtain ⟨b, hb⟩ := h a List.mem_cons_self
      rw [List.map_cons, List.filterMap_cons_some hb, List.map_cons, hb,
        ih fun a ha => h a (List.mem_cons_of_mem _ ha)]

/-- The edit of a verdict covers the call that the verdict is on. -/
theorem span_of_callEdit {v : StyleCall × Option String} (h : callEdit v = some e) :
    e.span = v.1.span := by
  unfold callEdit at h
  split at h
  · cases h
    rfl
  · cases h

theorem exists_of_mem_filterMap_callEdit (h : program.Placed source lo hi)
    (hv : verdicts.map Prod.fst = (Script.ofTree f source program).calls)
    (he : e ∈ verdicts.filterMap callEdit) :
    ∃ u ∈ outermost (f.isCalledBy source) isImport program, e.span = u.span := by
  obtain ⟨v, hmem, hedit⟩ := List.mem_filterMap.mp he
  have hcall : v.1 ∈ (Script.ofTree f source program).calls := hv ▸ List.mem_map_of_mem hmem
  rw [calls_ofTree h] at hcall
  obtain ⟨u, hu, hof⟩ := List.mem_map.mp hcall
  exact ⟨u, hu, by rw [span_of_callEdit hedit, ← hof]; rfl⟩

/-- The edits of calls stand in the order of the text. -/
theorem pairwise_callEdits (h : program.Placed source lo hi)
    (hv : verdicts.map Prod.fst = (Script.ofTree f source program).calls) :
    (verdicts.filterMap callEdit).Pairwise fun e e' => e.span.stop ≤ e'.span.start := by
  have hcalls : (verdicts.map Prod.fst).Pairwise fun a b => a.span.stop ≤ b.span.start := by
    rw [hv]
    exact (partition_ofTree h).apart
  rw [List.pairwise_map] at hcalls
  refine List.Pairwise.filterMap callEdit (fun v v' hle e he e' he' => ?_) hcalls
  rw [span_of_callEdit he, span_of_callEdit he']
  exact hle

theorem stands_of_mem (h : program.Placed source lo hi)
    (hu : u ∈ outermost (f.isCalledBy source) isImport program) :
    Stands source lo hi u.span :=
  (h.of_mem_outermost hu).stands (isLandmark_of_isCalledBy (wanted_of_mem_outermost hu))

theorem stands_of_mem_imports (h : program.Placed source lo hi)
    (hv : v ∈ outermost isImport (f.isCalledBy source) program) :
    Stands source lo hi v.span :=
  (h.of_mem_outermost hv).stands (isLandmark_of_isImport (wanted_of_mem_outermost hv))

/-- Each import that is found has an edit that takes it out. -/
theorem exists_of_mem_imports (h : program.Placed source lo hi) {i : StyleImport}
    (hi : i ∈ (Script.ofTree f source program).imports) :
    ∃ v ∈ outermost isImport (f.isCalledBy source) program, ∃ r,
      importEdit source i = some (.delete r) ∧ Reaches source v.span r := by
  rw [imports_ofTree] at hi
  obtain ⟨v, hv, hi⟩ := List.mem_flatMap.mp hi
  obtain ⟨r, hr, hreaches⟩ := importEdit_reaches (h.of_mem_outermost hv) hi
  exact ⟨v, hv, r, hr, hreaches⟩

/-- The removals of imports do not overlap. -/
theorem pairwise_removals (h : program.Placed source lo hi)
    (hone : program.any f.isImportedTwice = false) :
    ((Script.ofTree f source program).imports.filterMap (importEdit source)).Pairwise
      fun e e' => Apart e.span e'.span := by
  rw [imports_ofTree, List.pairwise_filterMap, List.pairwise_flatMap]
  constructor
  · intro v hv
    refine pairwise_of_length_le_one (length_importsOf_le ?_ (wanted_of_mem_outermost hv))
    obtain ⟨p, -, hp⟩ := exists_of_forall₂ (forall₂_placesOf _ _ program) hv
    exact any_at? hone hp
  · refine (h.pairwise_outermost fun t ht => isLandmark_of_isImport ht).imp_of_mem ?_
    intro v v' hv hv' hle i hi i' hi' e he e' he'
    obtain ⟨r, hr, hreaches⟩ := importEdit_reaches (h.of_mem_outermost hv) hi
    obtain ⟨r', hr', hreaches'⟩ := importEdit_reaches (h.of_mem_outermost hv') hi'
    cases hr.symm.trans he
    cases hr'.symm.trans he'
    exact apart_of_reaches (stands_of_mem_imports h hv).solid (stands_of_mem_imports h hv').solid
      (Or.inl hle) hreaches hreaches'

/-- Every edit of a replacement is applied, and none overlaps another. -/
theorem exists_edits (h : program.Placed source lo hi)
    (hone : program.any f.isImportedTwice = false)
    (hv : verdicts.map Prod.fst = (Script.ofTree f source program).calls) (b : Prop) [Decidable b] :
    ∃ edits out,
      edits.Perm (verdicts.filterMap callEdit ++ if b then
        (Script.ofTree f source program).imports.filterMap (importEdit source) else []) ∧
      (edits.Pairwise fun e e' => e.span.stop ≤ e'.span.start) ∧ Edited 0 source edits out ∧
      splice source (verdicts.filterMap callEdit ++ if b then
        (Script.ofTree f source program).imports.filterMap (importEdit source) else []) =
          some out := by
  have hcalls : ∀ e ∈ verdicts.filterMap callEdit,
      ∃ u ∈ outermost (f.isCalledBy source) isImport program, e.span = u.span := fun e he =>
    exists_of_mem_filterMap_callEdit h hv he
  have hremovals : ∀ e ∈ (Script.ofTree f source program).imports.filterMap (importEdit source),
      ∃ v ∈ outermost isImport (f.isCalledBy source) program, Reaches source v.span e.span := by
    intro e he
    obtain ⟨i, hi, he⟩ := List.mem_filterMap.mp he
    obtain ⟨v, hv, r, hr, hreaches⟩ := exists_of_mem_imports h hi
    cases hr.symm.trans he
    exact ⟨v, hv, hreaches⟩
  refine splice_of_apart ?_ ?_
  · intro e he
    rcases List.mem_append.mp he with he | he
    · obtain ⟨u, hu, hspan⟩ := hcalls e he
      rw [hspan]
      exact (stands_of_mem h hu).isPart
    · split at he
      · obtain ⟨v, -, hreaches⟩ := hremovals e he
        exact hreaches.isPart
      · cases he
  · refine List.pairwise_append.mpr ⟨(pairwise_callEdits h hv).imp Or.inl, ?_, ?_⟩
    · split
      · exact pairwise_removals h hone
      · exact .nil
    · intro e he e' he'
      split at he'
      · obtain ⟨u, hu, hspan⟩ := hcalls e he
        obtain ⟨v, hv, hreaches⟩ := hremovals e' he'
        rw [hspan]
        exact apart_of_reaches (stands_of_mem h hu).solid (stands_of_mem_imports h hv).solid
          (apart_of_mem h hu hv) (.refl (stands_of_mem h hu).isPart) hreaches
      · cases he'

/-! ## Replacements -/

theorem exists_of_replaceCalls_run
    (h : (replaceCalls c registry code file).run reports = (.ok (some replaced), reports')) :
    ∃ script verdicts, Script.read c.function code file = .ok script ∧
      (judgeAll c registry script file script.calls).run reports = (.ok verdicts, reports') ∧
      replaced = script.carryOut code.toList verdicts := by
  unfold replaceCalls at h
  obtain ⟨script, reports₁, hread, h⟩ := exists_of_run_bind h
  rw [run_lift] at hread
  cases congrArg Prod.snd hread
  split at h
  · cases h
  · obtain ⟨verdicts, reports₂, hverdicts, h⟩ := exists_of_run_bind h
    cases h
    exact ⟨script, verdicts, congrArg Prod.fst hread, hverdicts, rfl⟩

/-- What is carried out if each call has a verdict. -/
theorem counts_carryOut {script : Script} {names : List (Option String)}
    (hl : script.calls.length = names.length) (source : List Char) :
    (script.carryOut source (script.calls.zip names)).classNames = names.filterMap id ∧
      (script.carryOut source (script.calls.zip names)).unresolved = names.countP (·.isNone) := by
  have hnames : (script.calls.zip names).map Prod.snd = names :=
    List.map_snd_zip (Nat.le_of_eq hl.symm)
  unfold carryOut
  dsimp only
  constructor
  · conv_rhs => rw [← hnames, List.filterMap_map]
    rfl
  · conv_rhs => rw [← hnames, List.countP_map]
    rfl

/-- Each name is put in or missing. -/
theorem length_filterMap_add_countP (names : List (Option String)) :
    (names.filterMap id).length + names.countP (·.isNone) = names.length := by
  induction names with
  | nil => rfl
  | cons name names ih =>
      cases name with
      | none =>
          rw [List.filterMap_cons_none rfl, List.countP_cons_of_pos rfl, List.length_cons, ← ih]
          omega
      | some name =>
          rw [List.filterMap_cons_some (f := id) rfl, List.countP_cons_of_neg Bool.false_ne_true,
            List.length_cons, List.length_cons, ← ih]
          omega

/-- No edit of a replacement is lost, in a module that imports the function at most once in
each declaration.

Each call has a verdict, and each import has a part of the source that goes with it.  The
script that comes out is the source with the class names in the place of their calls and,
if all calls are replaced and there is no other reference to the function, without those
parts; no two of these edits overlap, and the rest of the source is kept. -/
theorem replaceCalls_edited
    (h : (replaceCalls c registry code file).run reports = (.ok (some replaced), reports'))
    (hone : ∀ program, parseModule (FileId.language file) code.toList = some program →
      program.any c.function.isImportedTwice = false) :
    ∃ script rules names removals edits,
      Script.read c.function code file = .ok script ∧ script.rules c file = .ok rules ∧
      names = rules.map (verdictOf c.unknown registry) ∧
      replaced.classNames = names.filterMap id ∧
      replaced.unresolved = names.countP (·.isNone) ∧
      replaced.classNames.length + replaced.unresolved = script.calls.length ∧
      script.imports.map (importEdit code.toList) = removals.map some ∧
      edits.Perm ((script.calls.zip names).filterMap callEdit ++
        if replaced.unresolved = 0 ∧ script.strayReferences = 0 then removals else []) ∧
      (edits.Pairwise fun e e' => e.span.stop ≤ e'.span.start) ∧
      Edited 0 code.toList edits replaced.code.toList := by
  obtain ⟨script, verdicts, hread, hverdicts, rfl⟩ := exists_of_replaceCalls_run h
  obtain ⟨rules, hr, rfl⟩ := exists_verdicts_of_judgeAll hverdicts
  obtain ⟨program, hparse, rfl⟩ := exists_of_read hread
  have hplaced := placed_of_parseModule hparse
  have hlength := hr.length_eq.trans (List.length_map (verdictOf c.unknown registry)).symm
  obtain ⟨hnames, hunresolved⟩ := counts_carryOut hlength code.toList
  obtain ⟨edits, out, hperm, hsorted, hedited, hsplice⟩ :=
    exists_edits hplaced (hone program hparse)
    (List.map_fst_zip (Nat.le_of_eq hlength)) (((Script.ofTree c.function code.toList
      program).calls.zip (rules.map (verdictOf c.unknown registry))).countP (·.2.isNone) = 0 ∧
        (Script.ofTree c.function code.toList program).strayReferences = 0)
  refine ⟨_, rules, _, _, edits, hread, rules_eq_ok_iff.mpr hr, rfl, hnames, hunresolved, ?_,
    map_some_filterMap fun i hi => ?_, hperm, hsorted, ?_⟩
  · rw [hnames, hunresolved, length_filterMap_add_countP, ← hlength]
  · obtain ⟨v, -, r, hr, -⟩ := exists_of_mem_imports hplaced hi
    exact ⟨_, hr⟩
  · unfold carryOut
    dsimp only
    rw [hsplice, String.toList_ofList]
    exact hedited

/-- The call gives way to its class name, and one of the two names that are imported goes. -/
theorem replaceCalls_edited_with_import :
    ∃ replaced reports script edits,
      (replaceCalls { Config.default with unknown := .substitute } .empty
        "import { a, css } from 'flow-css/core/css'; a(css({margin: 0}))" "a.ts").run [] =
          (.ok (some replaced), reports) ∧
      Script.read { Config.default with unknown := .substitute }.function
        "import { a, css } from 'flow-css/core/css'; a(css({margin: 0}))" "a.ts" = .ok script ∧
      replaced.classNames.length + replaced.unresolved = script.calls.length ∧
      Edited 0 "import { a, css } from 'flow-css/core/css'; a(css({margin: 0}))".toList edits
        replaced.code.toList := by
  have hsome : ((replaceCalls { Config.default with unknown := .substitute } .empty
      "import { a, css } from 'flow-css/core/css'; a(css({margin: 0}))" "a.ts").run
        []).1.toOption.map (·.isSome) = some true := by decide +kernel
  have hone : (parseModule (FileId.language "a.ts")
      "import { a, css } from 'flow-css/core/css'; a(css({margin: 0}))".toList).map
        (fun program => program.any
          { Config.default with unknown := .substitute }.function.isImportedTwice) =
            some false := by
    decide +kernel
  have hedited := @replaceCalls_edited { Config.default with unknown := .substitute } .empty
    "import { a, css } from 'flow-css/core/css'; a(css({margin: 0}))" "a.ts" []
  -- Nothing below needs to look into the run.
  generalize (replaceCalls { Config.default with unknown := .substitute } .empty
    "import { a, css } from 'flow-css/core/css'; a(css({margin: 0}))" "a.ts").run [] = run at *
  obtain ⟨output, hrun, houtput⟩ := exists_of_toOption hsome
  obtain ⟨replaced, rfl⟩ := Option.isSome_iff_exists.mp houtput
  obtain ⟨script, rules, names, removals, edits, hread, -, -, -, -, hcount, -, -, -, hcode⟩ :=
    hedited (Prod.ext hrun rfl) fun program hparse => by
      rw [hparse] at hone
      exact Option.some.inj hone
  exact ⟨replaced, _, script, edits, Prod.ext hrun rfl, hread, hcount, hcode⟩

end Script

end StaticStyle
