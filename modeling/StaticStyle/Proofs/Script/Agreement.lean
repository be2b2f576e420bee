import StaticStyle.Proofs.Scan
import StaticStyle.Script.Replacement

/-!
# Scans and replacements agree

A scan collects the rules of a script and a replacement looks them up again, each
in a pass of its own.  The two agree on every script.

If the scan succeeds, the registry holds what the replacement looks up, and goes
on holding it as long as it is not cleared (`replaceCalls_run`).  If the scan
fails, the replacement gets at most as far as the call that is at fault: it fails
there in the same way, unless it has been aborted at a call before it
(`judgeAll_run_of_error`).  `Scan.source_agrees` puts the two together.
-/

namespace StaticStyle.Script

open Running

variable {c c' : Config} {registry : Registry} {script : Script} {code file : String}
  {call : StyleCall} {calls before : List StyleCall} {e : ClassRule} {rules : List ClassRule}
  {fault : StyleError}

/-! ## Verdicts -/

/-- A call whose style is registered is replaced without a report. -/
theorem judge_run (hk : registry.hasClass e.className = true) (c : Config) (file : String)
    (reports : List UnknownStyle) :
    (judge c registry file e).run reports = (.ok (some e.className), reports) := by
  simp only [judge, hk, if_true]
  rfl

/-- A call whose style is not registered stops the replacement only if the policy is to
abort. -/
theorem judge_run_unknown (hk : registry.hasClass e.className = false)
    (reports : List UnknownStyle) :
    (c.unknown = .abort ∧ ((judge c registry file e).run reports).1 =
        .error (.unknownStyle file e.className e.key)) ∨
      ∃ verdict reports', (judge c registry file e).run reports = (.ok verdict, reports') := by
  simp only [judge, hk, if_neg Bool.false_ne_true]
  cases c.unknown with
  | abort => exact Or.inl ⟨rfl, rfl⟩
  | leaveUnresolved => exact Or.inr ⟨_, _, rfl⟩
  | substitute => exact Or.inr ⟨_, _, rfl⟩

/-- If all styles are registered, every call is replaced by the class name of its rule. -/
theorem judgeAll_run
    (hr : List.Forall₂ (fun call e => script.ruleOf c file call = .ok e) calls rules)
    (hk : ∀ e ∈ rules, registry.hasClass e.className = true) (reports : List UnknownStyle) :
    (judgeAll c registry script file calls).run reports =
      (.ok (calls.zip (rules.map fun e => some e.className)), reports) := by
  induction hr with
  | nil => rfl
  | cons hcall _ ih =>
      unfold judgeAll
      rw [run_bind, run_lift, hcall]
      dsimp only
      rw [run_bind_of_ok (judge_run (hk _ List.mem_cons_self) c file reports),
        run_bind_of_ok (ih fun e he => hk e (List.mem_cons_of_mem _ he))]
      rfl

/-- A replacement is aborted at a call whose style is not registered. -/
structure Aborts (c : Config) (registry : Registry) (script : Script) (file : String)
    (call : StyleCall) (fault : StyleError) : Prop where
  policy : c.unknown = .abort
  unknown : ∃ e, script.ruleOf c file call = .ok e ∧ registry.hasClass e.className = false ∧
    fault = .unknownStyle file e.className e.key

/-- At a call that has a rule the replacement goes on or is aborted. -/
theorem judge_cases (hcall : script.ruleOf c file call = .ok e) (registry : Registry)
    (reports : List UnknownStyle) :
    (∃ verdict reports', (judge c registry file e).run reports = (.ok verdict, reports')) ∨
      ∃ fault, ((judge c registry file e).run reports).1 = .error fault ∧
        Aborts c registry script file call fault := by
  cases hk : registry.hasClass e.className with
  | true => exact Or.inl ⟨_, _, judge_run hk c file reports⟩
  | false =>
      rcases judge_run_unknown hk reports with ⟨hpolicy, hrun⟩ | hrun
      · exact Or.inr ⟨_, hrun, hpolicy, e, hcall, hk, rfl⟩
      · exact Or.inl hrun

/-- A replacement fails at the first call without a rule, unless it is aborted before. -/
theorem judgeAll_run_of_error
    (hr : List.Forall₂ (fun call e => script.ruleOf c file call = .ok e) before rules)
    (hf : script.ruleOf c file call = .error fault) (after : List StyleCall) (registry : Registry)
    (reports : List UnknownStyle) :
    ∃ fault', ((judgeAll c registry script file (before ++ call :: after)).run reports).1 =
        .error fault' ∧
      (fault' = fault ∨ ∃ earlier ∈ before, Aborts c registry script file earlier fault') := by
  induction hr generalizing reports with
  | nil =>
      refine ⟨fault, run_bind_of_error ?_ _, Or.inl rfl⟩
      rw [run_lift, hf]
  | @cons first e _ _ hfirst _ ih =>
      unfold judgeAll
      rw [List.cons_append, run_bind, run_lift, hfirst]
      rcases judge_cases hfirst registry reports with ⟨verdict, reports', hrun⟩ | ⟨fault', hrun, ha⟩
      · obtain ⟨fault', hrest, hcause⟩ := ih reports'
        refine ⟨fault', ?_, hcause.imp id fun ⟨earlier, hm, ha⟩ =>
          ⟨earlier, List.mem_cons_of_mem _ hm, ha⟩⟩
        dsimp only
        rw [run_bind_of_ok hrun]
        exact run_bind_of_error hrest _
      · exact ⟨fault', run_bind_of_error hrun _, Or.inr ⟨first, List.mem_cons_self, ha⟩⟩

/-! ## Replacements -/

/-- What is carried out if every call is replaced. -/
theorem carryOut_zip (hl : script.calls.length = rules.length) (source : List Char) :
    (script.carryOut source
        (script.calls.zip (rules.map fun e => some e.className))).unresolved = 0 ∧
      (script.carryOut source
        (script.calls.zip (rules.map fun e => some e.className))).classNames =
          rules.map fun e => e.className := by
  unfold carryOut
  dsimp only
  generalize script.calls = calls at hl ⊢
  induction calls generalizing rules with
  | nil =>
      cases rules with
      | nil => exact ⟨rfl, rfl⟩
      | cons e rules => cases hl
  | cons call calls ih =>
      cases rules with
      | nil => cases hl
      | cons e rules =>
          obtain ⟨hu, hn⟩ := ih (Nat.succ.inj hl)
          refine ⟨?_, ?_⟩
          · simpa using hu
          · simpa using hn

/-- A script whose rules are all registered is replaced without a report: every call gets
the class name of its rule. -/
theorem replaceCalls_run (hr : rulesOf c code file = .ok rules)
    (hk : ∀ e ∈ rules, registry.hasClass e.className = true) (reports : List UnknownStyle) :
    ∃ output, (replaceCalls c registry code file).run reports = (.ok output, reports) ∧
      (output = none ↔ rules = []) ∧
      ∀ replaced, output = some replaced →
        replaced.unresolved = 0 ∧ replaced.classNames = rules.map fun e => e.className := by
  obtain ⟨script, hread, hr⟩ := rulesOf_eq_ok_iff.mp hr
  have hcalls := rules_eq_ok_iff.mp hr
  unfold replaceCalls
  rw [run_bind, run_lift, hread]
  dsimp only
  cases hempty : script.calls.isEmpty with
  | true =>
      rw [List.isEmpty_iff.mp hempty, List.forall₂_nil_left_iff] at hcalls
      exact ⟨none, rfl, iff_of_true rfl hcalls, nofun⟩
  | false =>
      refine ⟨_, run_bind_of_ok (judgeAll_run hcalls hk reports) _, ?_, ?_⟩
      · refine iff_of_false nofun fun hnil => ?_
        rw [hnil, List.forall₂_nil_right_iff] at hcalls
        rw [hcalls] at hempty
        cases hempty
      · rintro _ ⟨⟩
        exact carryOut_zip hcalls.length_eq code.toList

/-- A replacement fails with a script that has a fault, in the same way or because it is
aborted at an earlier call. -/
theorem replaceCalls_run_of_error (hr : rulesOf c code file = .error fault) (registry : Registry)
    (reports : List UnknownStyle) :
    ∃ fault', ((replaceCalls c registry code file).run reports).1 = .error fault' ∧
      (fault' = fault ∨ ∃ script before call after, Script.read c.function code file = .ok script ∧
        script.calls = before ++ call :: after ∧ script.ruleOf c file call = .error fault ∧
        ∃ earlier ∈ before, Aborts c registry script file earlier fault') := by
  unfold rulesOf at hr
  cases hread : Script.read c.function code file with
  | error e =>
      rw [hread] at hr
      cases hr
      refine ⟨fault, run_bind_of_error ?_ _, Or.inl rfl⟩
      rw [run_lift, hread]
  | ok script =>
      rw [hread] at hr
      obtain ⟨before, call, after, rules, hcalls, hbefore, hfault⟩ := exists_of_mapM_eq_error hr
      obtain ⟨fault', hrun, hcause⟩ :=
        judgeAll_run_of_error hbefore hfault after registry reports
      refine ⟨fault', ?_, hcause.imp id fun hearlier =>
        ⟨script, before, call, after, rfl, hcalls, hfault, hearlier⟩⟩
      unfold replaceCalls
      rw [run_bind, run_lift, hread]
      rw [← hcalls] at hrun
      have hempty : script.calls.isEmpty = false := by
        rw [hcalls]
        cases before with
        | nil => rfl
        | cons _ _ => rfl
      simp only [hempty, if_neg Bool.false_ne_true]
      exact run_bind_of_error hrun _

/-! ## Agreement -/

/-- Names for the calls of a script, made from the canonical texts of their styles. -/
def Names (c : Config) (script : Script) (file : String) (names : List String) : Prop :=
  List.Forall₂ (fun call name => ∃ d key, script.evaluate call file c.limits = .ok d ∧
    d.canonicalKey c.theme = .ok key ∧ name = Digest.className c.classPrefix key)
    script.calls names

theorem names_of_rules (hr : script.rules c file = .ok rules) :
    script.Names c file (rules.map fun e => e.className) := by
  rw [Names, List.forall₂_map_right_iff]
  refine (rules_eq_ok_iff.mp hr).imp fun call e hcall => ?_
  obtain ⟨d, hd, key, hkey, rfl⟩ := ruleOf_eq_ok_iff.mp hcall
  exact ⟨d, key, hd, hkey, rfl⟩

end StaticStyle.Script

namespace StaticStyle.Scan

open Script Running

/-- A scan of a script and the replacement of its calls agree, whatever their policies on
unknown styles are.

If the scan succeeds, so does the replacement, with the same text under any name of
the file and with any registry that comes later; it reports nothing, and it puts in
the class names of the calls in order.  If the scan fails, the replacement fails with
any registry, in the same way or because it is aborted at a call in front of the one
at fault. -/
theorem source_agrees {c c' : Config} {file : String} (hs : isScript file = true)
    (ha : c.Alike c') (code : String) (r : Registry) :
    (∀ found r₁, (source c code file).run r = (.ok found, r₁) →
      ∀ r₂, r₁.Later r₂ → ∀ id, FileId.path id = FileId.path file → ∀ reports,
        ∃ output, (replaceCalls c' r₂ code id).run reports = (.ok output, reports) ∧
          (output = none ↔ found = false) ∧
          ∀ replaced, output = some replaced → replaced.unresolved = 0 ∧
            ∃ script, Script.read c.function code file = .ok script ∧
              script.Names c file replaced.classNames) ∧
    (∀ fault r₁, (source c code file).run r = (.error fault, r₁) →
      ∀ r₂ reports, ∃ fault',
        ((replaceCalls c' r₂ code file).run reports).1 = .error fault' ∧
          (fault' = fault ∨ ∃ script before call after,
            Script.read c.function code file = .ok script ∧
            script.calls = before ++ call :: after ∧ script.ruleOf c file call = .error fault ∧
            ∃ earlier ∈ before, Aborts c' r₂ script file earlier fault')) := by
  rw [source_run hs]
  cases hr : rulesOf c code file with
  | error fault =>
      refine ⟨nofun, ?_⟩
      rintro _ _ ⟨⟩ r₂ reports
      obtain ⟨fault', hrun, hcause⟩ :=
        replaceCalls_run_of_error ((rulesOf_alike ha code file).trans hr) r₂ reports
      rw [ha.function] at hcause
      simp only [ruleOf_alike ha] at hcause
      exact ⟨fault', hrun, hcause⟩
  | ok rules =>
      refine ⟨?_, nofun⟩
      rintro _ _ ⟨⟩ r₂ hlater id hp reports
      have hid : rulesOf c' code id = .ok rules :=
        (rulesOf_alike ha code id).trans (rulesOf_of_path_eq hp hr)
      have hk := ((Registry.addAll_holds rules file r).grow hlater.grows).hasClass
      obtain ⟨output, hrun, hnone, hsome⟩ := replaceCalls_run hid hk reports
      refine ⟨output, hrun, ?_, fun replaced ho => ?_⟩
      · rw [hnone, Bool.not_eq_false', List.isEmpty_iff]
      · obtain ⟨hu, hn⟩ := hsome replaced ho
        obtain ⟨script, hread, hrules⟩ := rulesOf_eq_ok_iff.mp hr
        exact ⟨hu, script, hread, hn ▸ names_of_rules hrules⟩

/-- The name with a query is served what the scan has found under the name without it. -/
theorem source_agrees_with_query :
    ∃ output, (replaceCalls Config.default
        ((source Config.default "css({margin: 0})" "a.ts").run .empty).2
        "css({margin: 0})" "a.ts?v=1").run [] = (.ok output, []) ∧ output ≠ none := by
  have hs : isScript "a.ts" = true := by decide
  have hfound : (source Config.default "css({margin: 0})" "a.ts").run .empty = (.ok true, _) :=
    run_of_toOption (by decide +kernel)
  have hagree := source_agrees hs (.refl Config.default) "css({margin: 0})" .empty
  -- Nothing below needs to look into the run.
  generalize (source Config.default "css({margin: 0})" "a.ts").run .empty = x at *
  obtain ⟨output, hrun, hnone, -⟩ := hagree.1 true x.2 hfound x.2 .refl "a.ts?v=1" (by decide) []
  exact ⟨output, hrun, fun ho => Bool.noConfusion (hnone.mp ho)⟩

end StaticStyle.Scan
