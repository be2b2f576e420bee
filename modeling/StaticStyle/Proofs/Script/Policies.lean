import StaticStyle.Proofs.Script.Edits

/-!
# Policies on unknown styles

The three policies differ only in what they do about calls whose styles are not
registered.  To abort is to refuse the script at the first of them.  To leave them is to
keep their text, and the imports with it.  To substitute is to do what would be done if
all styles were registered (`Script.replaceCalls_policies`).
-/

namespace StaticStyle.Script

open Running
open StaticStyle.Syntax
open StaticStyle.Text

variable {c : Config} {registry : Registry} {script : Script} {code file : String}
  {rules rest : List ClassRule} {first : ClassRule} {reports : List UnknownStyle}
  {source s out : List Char} {n : Nat} {calls : List StyleCall} {fault : StyleError}
  {verdicts : List (StyleCall × Option String)} {reports' : List UnknownStyle}

/-! ## Running under a policy -/

theorem replaceCalls_run_of_nil (hread : Script.read c.function code file = .ok script)
    (hnil : script.calls = []) (reports : List UnknownStyle) :
    (replaceCalls c registry code file).run reports = (.ok none, reports) := by
  unfold replaceCalls
  rw [run_bind, run_lift, hread]
  simp only [hnil]
  rfl

theorem replaceCalls_run_of_verdicts (hread : Script.read c.function code file = .ok script)
    (hne : script.calls ≠ [])
    (h : (judgeAll c registry script file script.calls).run reports = (.ok verdicts, reports')) :
    (replaceCalls c registry code file).run reports =
      (.ok (some (script.carryOut code.toList verdicts)), reports') := by
  have hempty : script.calls.isEmpty = false := List.isEmpty_eq_false_iff.mpr hne
  unfold replaceCalls
  rw [run_bind, run_lift, hread]
  simp only [hempty, if_neg Bool.false_ne_true]
  exact run_bind_of_ok h _

theorem replaceCalls_run_of_fault (hread : Script.read c.function code file = .ok script)
    (hne : script.calls ≠ [])
    (h : (judgeAll c registry script file script.calls).run reports = (.error fault, reports')) :
    (replaceCalls c registry code file).run reports = (.error fault, reports') := by
  have hempty : script.calls.isEmpty = false := List.isEmpty_eq_false_iff.mpr hne
  unfold replaceCalls
  rw [run_bind, run_lift, hread]
  simp only [hempty, if_neg Bool.false_ne_true]
  rw [run_bind, h]

/-- What comes out of a script if every call is replaced. -/
def replacedWhole (script : Script) (source : List Char) (rules : List ClassRule) :
    Option ReplacedScript :=
  if script.calls = [] then none
  else some (script.carryOut source (script.calls.zip (rules.map fun e => some e.className)))

/-- Without an unknown style all policies do the same. -/
theorem replaceCalls_run_known (hread : Script.read c.function code file = .ok script)
    (hr : script.rules c file = .ok rules)
    (hk : ∀ e ∈ rules, registry.hasClass e.className = true) (reports : List UnknownStyle) :
    (replaceCalls c registry code file).run reports =
      (.ok (script.replacedWhole code.toList rules), reports) := by
  unfold replacedWhole
  by_cases hnil : script.calls = []
  · rw [replaceCalls_run_of_nil hread hnil, if_pos hnil]
  · rw [if_neg hnil]
    exact replaceCalls_run_of_verdicts hread hnil (judgeAll_run (rules_eq_ok_iff.mp hr) hk reports)

/-! ## Leaving calls -/

theorem isNone_verdictOf (registry : Registry) (e : ClassRule) :
    (verdictOf .leaveUnresolved registry e).isNone = !registry.hasClass e.className := by
  cases hk : registry.hasClass e.className with
  | true => rw [verdictOf_known hk]; rfl
  | false => simp [verdictOf, hk]

theorem countP_isNone_verdictOf (registry : Registry) (rules : List ClassRule) :
    (rules.map (verdictOf .leaveUnresolved registry)).countP (·.isNone) =
      (unknowns registry rules).length := by
  rw [List.countP_map, unknowns, ← List.countP_eq_length_filter]
  exact congrArg (List.countP · rules) (funext (isNone_verdictOf registry))

theorem filterMap_verdictOf (registry : Registry) (rules : List ClassRule) :
    (rules.map (verdictOf .leaveUnresolved registry)).filterMap id =
      (rules.filter fun e => registry.hasClass e.className).map fun e => e.className := by
  induction rules with
  | nil => rfl
  | cons e rules ih =>
      cases hk : registry.hasClass e.className with
      | true =>
          rw [List.map_cons, verdictOf_known hk, List.filterMap_cons_some (f := id) rfl, ih,
            List.filter_cons_of_pos (p := fun e : ClassRule => registry.hasClass e.className) hk]
          rfl
      | false =>
          have hnone : verdictOf .leaveUnresolved registry e = none := by
            simp [verdictOf, hk]
          rw [List.map_cons, hnone, List.filterMap_cons_none rfl, ih,
            List.filter_cons_of_neg (p := fun e : ClassRule => registry.hasClass e.className)
              (Bool.eq_false_iff.mp hk)]

/-- What stands in the place of a call if those with unknown styles are left: the class name,
or the text of the call. -/
def leftEdit (registry : Registry) (call : StyleCall) (e : ClassRule) : Edit :=
  ⟨call.span, if registry.hasClass e.className = true then quoted e.className.toList
    else call.text.toList⟩

/-- To leave a call is to put its text in its own place. -/
theorem edited_leftEdit
    (h : Edited n s ((calls.zip (rules.map (verdictOf .leaveUnresolved registry))).filterMap
      callEdit) out)
    (hs : Continues source n s) (hl : calls.length = rules.length)
    (hslice : ∀ call ∈ calls, slice? source call.span = some call.text.toList)
    (hn : ∀ call ∈ calls, n ≤ call.span.start)
    (hp : calls.Pairwise fun a b => a.span.stop ≤ b.span.start) :
    Edited n s (List.zipWith (leftEdit registry) calls rules) out := by
  induction calls generalizing n s out rules with
  | nil =>
      cases h
      exact .done
  | cons call calls ih =>
      obtain ⟨span, argument, text⟩ := call
      obtain ⟨hbehind, hrest⟩ := List.pairwise_cons.mp hp
      have hslice' : ∀ call ∈ calls, slice? source call.span = some call.text.toList :=
        fun call hcall => hslice call (List.mem_cons_of_mem _ hcall)
      have hn' : ∀ call ∈ calls, n ≤ call.span.start :=
        fun call hcall => hn call (List.mem_cons_of_mem _ hcall)
      cases rules with
      | nil => cases hl
      | cons e rules =>
          cases hk : registry.hasClass e.className with
          | true =>
              rw [List.map_cons, verdictOf_known hk, List.zip_cons_cons,
                List.filterMap_cons_some (f := callEdit) rfl] at h
              rw [List.zipWith_cons_cons, leftEdit, if_pos hk]
              cases h with
              | edit h =>
                  exact .edit (ih h hs.append.append (Nat.succ.inj hl) hslice' hbehind hrest)
          | false =>
              have hnone : verdictOf .leaveUnresolved registry e = none := by
                simp [verdictOf, hk]
              rw [List.map_cons, hnone, List.zip_cons_cons,
                List.filterMap_cons_none (f := callEdit) rfl] at h
              rw [List.zipWith_cons_cons, leftEdit, if_neg (Bool.eq_false_iff.mp hk)]
              refine (ih h hs (Nat.succ.inj hl) hslice' hn' hrest).cons_of_slice? hs
                (hslice _ List.mem_cons_self) (hn _ List.mem_cons_self) fun edit hedit => ?_
              rw [← List.map_uncurry_zip_eq_zipWith] at hedit
              obtain ⟨⟨call, e'⟩, hmem, rfl⟩ := List.mem_map.mp hedit
              exact hbehind call (List.of_mem_zip hmem).1

variable {f : StyleFunction} {program : Tree} {lo hi : Nat}

/-- The text of a call that is listed is its part of the source. -/
theorem slice?_of_mem_calls (h : program.Placed source lo hi) {call : StyleCall}
    (hcall : call ∈ (Script.ofTree f source program).calls) :
    slice? source call.span = some call.text.toList := by
  obtain ⟨p, -, t, -, hdescribes⟩ := exists_of_forall₂ (partition_ofTree h).described hcall
  rw [hdescribes.span]
  exact hdescribes.text

/-- What comes out if calls are left is the source with the other calls replaced. -/
theorem edited_carryOut (h : program.Placed source lo hi)
    (hl : (Script.ofTree f source program).calls.length = rules.length)
    (hu : unknowns registry rules ≠ []) :
    Edited 0 source
      (List.zipWith (leftEdit registry) (Script.ofTree f source program).calls rules)
      ((Script.ofTree f source program).carryOut source ((Script.ofTree f source program).calls.zip
        (rules.map (verdictOf .leaveUnresolved registry)))).code.toList := by
  have hlength : (Script.ofTree f source program).calls.length =
      (rules.map (verdictOf .leaveUnresolved registry)).length := by rw [List.length_map, hl]
  have hverdicts := List.map_fst_zip (Nat.le_of_eq hlength)
  have hcount := (counts_carryOut hlength source).2
  rw [countP_isNone_verdictOf] at hcount
  have hstands : ∀ e ∈ ((Script.ofTree f source program).calls.zip
      (rules.map (verdictOf .leaveUnresolved registry))).filterMap callEdit,
      Stands source lo hi e.span := by
    intro e he
    obtain ⟨u, hu, hspan⟩ := exists_of_mem_filterMap_callEdit h hverdicts he
    exact hspan ▸ stands_of_mem h hu
  obtain ⟨out, hout, hsplice⟩ := splice_of_sorted (fun e he => (hstands e he).isPart)
    (pairwise_callEdits h hverdicts) fun e he => (hstands e he).nonempty
  have hcode : ((Script.ofTree f source program).carryOut source
      ((Script.ofTree f source program).calls.zip
        (rules.map (verdictOf .leaveUnresolved registry)))).code = String.ofList out := by
    unfold carryOut at hcount ⊢
    dsimp only at hcount ⊢
    -- Calls are left, so no import is taken out.
    rw [hcount, if_neg fun hnone => hu (List.length_eq_zero_iff.mp hnone.1), List.append_nil,
      hsplice]
    rfl
  rw [hcode, String.toList_ofList]
  exact edited_leftEdit hout (.zero source) hl (fun _ => slice?_of_mem_calls h)
    (fun _ _ => Nat.zero_le _) (partition_ofTree h).apart

/-- The declarations of the imports that are found are parts of the source and stand apart
from the calls. -/
theorem apart_of_mem_imports (h : program.Placed source lo hi) {i : StyleImport}
    (hi : i ∈ (Script.ofTree f source program).imports) :
    (slice? source i.declaration).isSome ∧
      ∀ call ∈ (Script.ofTree f source program).calls, Apart i.declaration call.span := by
  rw [imports_ofTree] at hi
  obtain ⟨v, hv, hi⟩ := List.mem_flatMap.mp hi
  have hdeclaration : i.declaration = v.span := by
    unfold StyleFunction.importsOf at hi
    split at hi
    · split at hi
      · obtain ⟨name, -, rfl⟩ := List.mem_map.mp hi
        rfl
      · cases hi
    · cases hi
  rw [hdeclaration, calls_ofTree h]
  refine ⟨(stands_of_mem_imports h hv).isPart, List.forall_mem_map.mpr fun u hu => ?_⟩
  exact (apart_of_mem h hu hv).symm

/-! ## The policies -/

theorem calls_ne_nil (hr : script.rules c file = .ok rules)
    (hu : unknowns registry rules = first :: rest) : script.calls ≠ [] := by
  intro hnil
  rw [(rules_eq_nil_iff hr).mpr hnil] at hu
  cases hu

/-- A script is what is left of a module if the calls with unknown styles are left: the other
calls are replaced, and all else is kept, the imports among it. -/
structure Leaves (registry : Registry) (script : Script) (source : List Char)
    (rules : List ClassRule) (left : ReplacedScript) : Prop where
  unresolved : left.unresolved = (unknowns registry rules).length
  classNames : left.classNames =
    (rules.filter fun e => registry.hasClass e.className).map (·.className)
  texts : ∀ call ∈ script.calls, slice? source call.span = some call.text.toList
  imports : ∀ i ∈ script.imports, (slice? source i.declaration).isSome ∧
    ∀ call ∈ script.calls, Apart i.declaration call.span
  edited : Edited 0 source (List.zipWith (leftEdit registry) script.calls rules) left.code.toList

theorem leaves_carryOut (h : program.Placed source lo hi)
    (hl : (Script.ofTree f source program).calls.length = rules.length)
    (hu : unknowns registry rules ≠ []) :
    Leaves registry (Script.ofTree f source program) source rules
      ((Script.ofTree f source program).carryOut source ((Script.ofTree f source program).calls.zip
        (rules.map (verdictOf .leaveUnresolved registry)))) := by
  have hlength : (Script.ofTree f source program).calls.length =
      (rules.map (verdictOf .leaveUnresolved registry)).length := by rw [List.length_map, hl]
  obtain ⟨hnames, hunresolved⟩ := counts_carryOut hlength source
  constructor
  case unresolved => rw [hunresolved, countP_isNone_verdictOf]
  case classNames => rw [hnames, filterMap_verdictOf]
  case texts => exact fun _ => slice?_of_mem_calls h
  case imports => exact fun _ => apart_of_mem_imports h
  case edited => exact edited_carryOut h hl hu

/-- What the policies make of a module whose calls all have rules.

If all the rules are registered, the three do the same, without a report.  Otherwise the
first unknown style is reported and the script is refused for it; or all of them are
reported and their calls are left, with the imports, while the other calls are replaced;
or all of them are reported, and all calls are replaced as they would be if the styles
were registered. -/
theorem replaceCalls_policies (hr : rulesOf c code file = .ok rules) (registry : Registry) :
    (unknowns registry rules = [] → ∃ output, ∀ policy reports,
      (replaceCalls { c with unknown := policy } registry code file).run reports =
        (.ok output, reports)) ∧
    ∀ first rest, unknowns registry rules = first :: rest →
      (∀ reports, (replaceCalls { c with unknown := .abort } registry code file).run reports =
        (.error (.unknownStyle file first.className first.key),
          reports ++ [reportOn file first])) ∧
      (∃ script left, Script.read c.function code file = .ok script ∧
        script.rules c file = .ok rules ∧ Leaves registry script code.toList rules left ∧
        ∀ reports,
          (replaceCalls { c with unknown := .leaveUnresolved } registry code file).run reports =
            (.ok (some left), reports ++ (unknowns registry rules).map (reportOn file))) ∧
      ∃ substituted,
        (∀ reports,
          (replaceCalls { c with unknown := .substitute } registry code file).run reports =
            (.ok (some substituted), reports ++ (unknowns registry rules).map (reportOn file))) ∧
        ∀ registry' : Registry, (∀ e ∈ rules, registry'.hasClass e.className = true) →
          ∀ policy reports,
            (replaceCalls { c with unknown := policy } registry' code file).run reports =
              (.ok (some substituted), reports) := by
  obtain ⟨script, hread, hrules⟩ := rulesOf_eq_ok_iff.mp hr
  have hcalls := rules_eq_ok_iff.mp hrules
  constructor
  · intro hnil
    refine ⟨script.replacedWhole code.toList rules, fun policy reports => ?_⟩
    exact replaceCalls_run_known (c := { c with unknown := policy }) hread hrules
      (unknowns_eq_nil_iff.mp hnil) reports
  · intro first rest hu
    have hne := calls_ne_nil hrules hu
    refine ⟨fun reports => ?_, ?_, ?_⟩
    · exact replaceCalls_run_of_fault hread hne
        (judgeAll_run_aborts (c := { c with unknown := .abort }) rfl hcalls hu reports)
    · refine ⟨script, script.carryOut code.toList
        (script.calls.zip (rules.map (verdictOf .leaveUnresolved registry))), hread, hrules, ?_,
        fun reports => ?_⟩
      · obtain ⟨program, hparse, rfl⟩ := exists_of_read hread
        exact leaves_carryOut (placed_of_parseModule hparse) hcalls.length_eq
          (by rw [hu]; exact List.cons_ne_nil first rest)
      · exact replaceCalls_run_of_verdicts hread hne
          (judgeAll_run_goes_on (c := { c with unknown := .leaveUnresolved }) nofun hcalls reports)
    · refine ⟨script.carryOut code.toList
        (script.calls.zip (rules.map fun e => some e.className)), fun reports => ?_,
        fun registry' hk policy reports => ?_⟩
      · have hverdicts : rules.map (verdictOf .substitute registry) =
            rules.map fun e => some e.className :=
          List.map_congr_left fun e _ => verdictOf_substitute
        rw [← hverdicts]
        exact replaceCalls_run_of_verdicts hread hne
          (judgeAll_run_goes_on (c := { c with unknown := .substitute }) nofun hcalls reports)
      · rw [replaceCalls_run_known (c := { c with unknown := policy }) hread hrules hk reports,
          replacedWhole, if_neg hne]

/-- One of two styles is known. -/
theorem replaceCalls_policies_half_known :
    ∃ rules first,
      rulesOf Config.default "css({margin: 0}); css({margin: 1})" "a.ts" = .ok rules ∧
      rules.length = 2 ∧
      unknowns ((Scan.source Config.default "css({margin: 1})" "b.ts").run .empty).2 rules =
        [first] ∧
      ∃ left : ReplacedScript, left.unresolved = 1 ∧ ∀ reports,
        (replaceCalls { Config.default with unknown := .leaveUnresolved }
          ((Scan.source Config.default "css({margin: 1})" "b.ts").run .empty).2
          "css({margin: 0}); css({margin: 1})" "a.ts").run reports =
            (.ok (some left), reports ++ [reportOn "a.ts" first]) := by
  have hcount : (rulesOf Config.default "css({margin: 0}); css({margin: 1})" "a.ts").toOption.map
      (fun rules => (rules.length, (unknowns
        ((Scan.source Config.default "css({margin: 1})" "b.ts").run .empty).2 rules).length)) =
          some (2, 1) := by decide +kernel
  -- Nothing below needs to look into the scan.
  generalize ((Scan.source Config.default "css({margin: 1})" "b.ts").run .empty).2 = registry at *
  obtain ⟨rules, hrules, hcount⟩ := exists_of_toOption hcount
  obtain ⟨first, hu⟩ := List.length_eq_one_iff.mp (congrArg Prod.snd hcount)
  obtain ⟨-, ⟨script, left, -, -, hleaves, hrun⟩, -⟩ :=
    (replaceCalls_policies hrules registry).2 first [] hu
  refine ⟨rules, first, hrules, congrArg Prod.fst hcount, hu, left, ?_, fun reports => ?_⟩
  · rw [hleaves.unresolved, hu]
    rfl
  · rw [hrun, hu]
    rfl

end StaticStyle.Script
