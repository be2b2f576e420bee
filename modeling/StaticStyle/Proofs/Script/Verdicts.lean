import StaticStyle.Proofs.Script.Removal

/-!
# Verdicts on calls

What becomes of the calls of a script depends on which of their styles are registered and
on the policy for those that are not (`verdictOf`).  The unknown ones are reported in the
order of the calls, all of them unless the replacement is aborted, and then only the first
(`judgeAll_run_goes_on`, `judgeAll_run_aborts`).
-/

namespace StaticStyle.Script

open Running

variable {c : Config} {registry : Registry} {script : Script} {code file : String}
  {call : StyleCall} {calls : List StyleCall} {e first : ClassRule}
  {rules rest : List ClassRule} {reports reports' : List UnknownStyle}
  {verdicts : List (StyleCall × Option String)}

/-! ## One call -/

/-- What becomes of a call under a policy that goes on: the class name of its rule takes its
place if the rule is registered or the policy does not mind. -/
def verdictOf (policy : UnknownPolicy) (registry : Registry) (e : ClassRule) : Option String :=
  if registry.hasClass e.className = true ∨ policy = .substitute then some e.className else none

/-- The rules that are not registered. -/
def unknowns (registry : Registry) (rules : List ClassRule) : List ClassRule :=
  rules.filter fun e => !registry.hasClass e.className

/-- The report on a rule that is not registered. -/
def reportOn (file : String) (e : ClassRule) : UnknownStyle := ⟨file, e.declaration⟩

theorem verdictOf_known (hk : registry.hasClass e.className = true) (policy : UnknownPolicy) :
    verdictOf policy registry e = some e.className := if_pos (Or.inl hk)

theorem verdictOf_substitute : verdictOf .substitute registry e = some e.className :=
  if_pos (Or.inr rfl)

theorem unknowns_cons_known (hk : registry.hasClass e.className = true) :
    unknowns registry (e :: rules) = unknowns registry rules := by
  refine List.filter_cons_of_neg ?_
  rw [hk]
  exact Bool.false_ne_true

theorem unknowns_cons_unknown (hk : registry.hasClass e.className = false) :
    unknowns registry (e :: rules) = e :: unknowns registry rules := by
  refine List.filter_cons_of_pos ?_
  rw [hk]
  rfl

theorem unknowns_eq_nil_iff :
    unknowns registry rules = [] ↔ ∀ e ∈ rules, registry.hasClass e.className = true := by
  rw [unknowns, List.filter_eq_nil_iff]
  refine forall₂_congr fun e _ => ?_
  rw [Bool.not_eq_true, Bool.not_eq_false']

/-- A rule that is not registered is reported, and the replacement goes on. -/
theorem judge_run_goes_on (hp : c.unknown ≠ .abort) (hk : registry.hasClass e.className = false)
    (reports : List UnknownStyle) :
    (judge c registry file e).run reports =
      (.ok (verdictOf c.unknown registry e), reports ++ [reportOn file e]) := by
  simp only [judge, verdictOf, hk, false_or, Bool.false_eq_true]
  cases hpolicy : c.unknown with
  | abort => exact absurd hpolicy hp
  | leaveUnresolved => rfl
  | substitute => rfl

/-- A rule that is not registered is reported, and the replacement is aborted. -/
theorem judge_run_aborts (hp : c.unknown = .abort) (hk : registry.hasClass e.className = false)
    (reports : List UnknownStyle) :
    (judge c registry file e).run reports =
      (.error (.unknownStyle file e.className e.key), reports ++ [reportOn file e]) := by
  simp only [judge, hk, if_neg Bool.false_ne_true, hp]
  rfl

/-! ## All calls -/

/-- Unless it is aborted, a replacement gives a verdict on each call and reports each
unknown style. -/
theorem judgeAll_run_goes_on (hp : c.unknown ≠ .abort)
    (hr : List.Forall₂ (fun call e => script.ruleOf c file call = .ok e) calls rules)
    (reports : List UnknownStyle) :
    (judgeAll c registry script file calls).run reports =
      (.ok (calls.zip (rules.map (verdictOf c.unknown registry))),
        reports ++ (unknowns registry rules).map (reportOn file)) := by
  induction hr generalizing reports with
  | nil => exact congrArg (Prod.mk _) (List.append_nil reports).symm
  | @cons call e calls rules hcall _ ih =>
      unfold judgeAll
      rw [run_bind, run_lift, hcall]
      dsimp only
      cases hk : registry.hasClass e.className with
      | true =>
          rw [run_bind_of_ok (judge_run hk c file reports), run_bind_of_ok (ih reports),
            unknowns_cons_known hk, List.map_cons, verdictOf_known hk]
          rfl
      | false =>
          rw [run_bind_of_ok (judge_run_goes_on hp hk reports), run_bind_of_ok (ih _),
            unknowns_cons_unknown hk, List.map_cons, List.map_cons, List.append_assoc]
          rfl

/-- A replacement is aborted at the first call whose style is unknown, with one report. -/
theorem judgeAll_run_aborts (hp : c.unknown = .abort)
    (hr : List.Forall₂ (fun call e => script.ruleOf c file call = .ok e) calls rules)
    (hu : unknowns registry rules = first :: rest) (reports : List UnknownStyle) :
    (judgeAll c registry script file calls).run reports =
      (.error (.unknownStyle file first.className first.key),
        reports ++ [reportOn file first]) := by
  induction hr with
  | nil => cases hu
  | @cons call e calls rules hcall _ ih =>
      unfold judgeAll
      rw [run_bind, run_lift, hcall]
      dsimp only
      cases hk : registry.hasClass e.className with
      | true =>
          rw [unknowns_cons_known hk] at hu
          rw [run_bind_of_ok (judge_run hk c file reports), run_bind, ih hu]
      | false =>
          rw [unknowns_cons_unknown hk] at hu
          cases hu
          rw [run_bind, judge_run_aborts hp hk reports]

/-- The verdicts on the calls of a script come from rules. -/
theorem exists_forall₂_ruleOf
    (h : (judgeAll c registry script file calls).run reports = (.ok verdicts, reports')) :
    ∃ rules, List.Forall₂ (fun call e => script.ruleOf c file call = .ok e) calls rules := by
  induction calls generalizing reports reports' verdicts with
  | nil => exact ⟨[], .nil⟩
  | cons call calls ih =>
      unfold judgeAll at h
      obtain ⟨e, reports₁, hcall, h⟩ := exists_of_run_bind h
      obtain ⟨verdict, reports₂, -, h⟩ := exists_of_run_bind h
      obtain ⟨others, reports₃, hrest, -⟩ := exists_of_run_bind h
      obtain ⟨rules, hrules⟩ := ih hrest
      rw [run_lift] at hcall
      exact ⟨e :: rules, .cons (congrArg Prod.fst hcall) hrules⟩

/-- If a replacement is not aborted, its verdicts are those that the policy gives. -/
theorem exists_verdicts_of_judgeAll
    (h : (judgeAll c registry script file calls).run reports = (.ok verdicts, reports')) :
    ∃ rules, List.Forall₂ (fun call e => script.ruleOf c file call = .ok e) calls rules ∧
      verdicts = calls.zip (rules.map (verdictOf c.unknown registry)) := by
  obtain ⟨rules, hr⟩ := exists_forall₂_ruleOf h
  refine ⟨rules, hr, ?_⟩
  by_cases hp : c.unknown = .abort
  · cases hu : unknowns registry rules with
    | nil =>
        have hk := unknowns_eq_nil_iff.mp hu
        rw [judgeAll_run hr hk] at h
        cases h
        exact congrArg _ (List.map_congr_left fun e he => (verdictOf_known (hk e he) _).symm)
    | cons first rest =>
        rw [judgeAll_run_aborts hp hr hu] at h
        cases h
  · rw [judgeAll_run_goes_on hp hr] at h
    cases h
    rfl

end StaticStyle.Script
