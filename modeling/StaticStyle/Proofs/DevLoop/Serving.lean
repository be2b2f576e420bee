import StaticStyle.Proofs.DevLoop.Operations
import StaticStyle.Proofs.Script.Rules

/-!
# Outcomes of serving a module

Whatever module is asked for, one of four things happens (`DevLoop.serve_cases`).  Nothing
but reports comes of it; the rules of the registry are refused, and then the registry is
emptied; the stylesheet is noted as a root but cannot be minified; or it is emitted.

When a stylesheet is emitted, and with what text, is a matter of the rules of the registry
alone.  This is `Sheet.Yields`, and a stylesheet that the rules yield is emitted
(`DevLoop.serve_of_yields`).
-/

namespace StaticStyle

open Running

/-! ## Scripts and the rules of the registry -/

namespace Script

variable {c : Config} {registry : Registry} {script : Script} {code file : String}
  {call : StyleCall} {calls : List StyleCall} {e : ClassRule} {fault : StyleError}

/-- An error does not say that the rules of the registry are invalid. -/
def SparesRules (fault : StyleError) : Prop :=
  ∀ reason rules, fault ≠ .invalidRules reason rules

theorem sparesRules_of_read {f : StyleFunction} (h : Script.read f code file = .error fault) :
    SparesRules fault := by
  unfold Script.read at h
  dsimp only at h
  split at h
  · cases h
  · cases h
    nofun

theorem sparesRules_of_ruleOf (h : script.ruleOf c file call = .error fault) :
    SparesRules fault := by
  unfold ruleOf at h
  cases hd : script.evaluate call file c.limits with
  | error e =>
      rw [hd] at h
      cases h
      unfold evaluate at hd
      split at hd
      · cases hd
        nofun
      · rename_i argument _
        cases hread : Declaration.read argument script.constants c.limits with
        | error cause =>
            rw [hread] at hd
            cases hd
            nofun
        | ok d =>
            rw [hread] at hd
            cases hd
  | ok d =>
      rw [hd] at h
      change (c.naming.ruleOf d).mapError _ = _ at h
      cases hrule : c.naming.ruleOf d with
      | error cause =>
          rw [hrule] at h
          cases h
          nofun
      | ok e =>
          rw [hrule] at h
          cases h

theorem sparesRules_of_judge {reports : List UnknownStyle}
    (h : ((judge c registry file e).run reports).1 = .error fault) : SparesRules fault := by
  unfold judge at h
  cases hk : registry.hasClass e.className with
  | true =>
      rw [hk, if_pos rfl] at h
      cases h
  | false =>
      rw [hk, if_neg Bool.false_ne_true] at h
      cases hpolicy : c.unknown with
      | abort =>
          rw [hpolicy] at h
          cases h
          nofun
      | leaveUnresolved =>
          rw [hpolicy] at h
          cases h
      | substitute =>
          rw [hpolicy] at h
          cases h

theorem sparesRules_of_judgeAll {reports : List UnknownStyle}
    (h : ((judgeAll c registry script file calls).run reports).1 = .error fault) :
    SparesRules fault := by
  induction calls generalizing reports with
  | nil => cases h
  | cons call calls ih =>
      unfold judgeAll at h
      rw [run_bind, run_lift] at h
      cases hrule : script.ruleOf c file call with
      | error e =>
          rw [hrule] at h
          cases h
          exact sparesRules_of_ruleOf hrule
      | ok e =>
          rw [hrule] at h
          dsimp only at h
          rw [run_bind] at h
          rcases hjudge : (judge c registry file e).run reports with ⟨_ | verdict, reports'⟩
          · rw [hjudge] at h
            cases h
            exact sparesRules_of_judge (congrArg Prod.fst hjudge)
          · rw [hjudge] at h
            dsimp only at h
            rw [run_bind] at h
            rcases hrest : (judgeAll c registry script file calls).run reports' with
              ⟨_ | verdicts, reports''⟩
            · rw [hrest] at h
              cases h
              exact ih (congrArg Prod.fst hrest)
            · rw [hrest] at h
              cases h

/-- No replacement finds fault with the rules of the registry. -/
theorem sparesRules_of_replaceCalls {reports : List UnknownStyle}
    (h : ((replaceCalls c registry code file).run reports).1 = .error fault) :
    SparesRules fault := by
  unfold replaceCalls at h
  rw [run_bind, run_lift] at h
  cases hread : Script.read c.function code file with
  | error e =>
      rw [hread] at h
      cases h
      exact sparesRules_of_read hread
  | ok script =>
      rw [hread] at h
      dsimp only at h
      split at h
      · cases h
      · rw [run_bind] at h
        rcases hall : (judgeAll c registry script file script.calls).run reports with
          ⟨_ | verdicts, reports'⟩
        · rw [hall] at h
          cases h
          exact sparesRules_of_judgeAll (congrArg Prod.fst hall)
        · rw [hall] at h
          cases h

end Script

/-! ## Stylesheets -/

/-- A stylesheet with a directive is emitted with a text when it is served with some rules. -/
structure Sheet.Yields (c : Config) (p : SheetParser) (rules code id text : String) : Prop where
  isSheet : FileId.kindOf id = .stylesheet
  isRoot : Sheet.isRoot c code = true
  sourceValid : p.fault? code = none
  rulesValid : p.fault? rules = none
  finished : Sheet.finished c p (Sheet.expanded c rules code) id = .ok text

/-- Only a minifier can stand in the way of a stylesheet that has been put together. -/
theorem Sheet.finished_eq_error_iff {c : Config} {p : SheetParser} {text id : String}
    {fault : StyleError} :
    Sheet.finished c p text id = .error fault ↔
      c.minify = true ∧ ∃ reason, p.minify text = .error reason ∧
        fault = .invalidSheet id reason := by
  unfold Sheet.finished
  cases c.minify with
  | false => exact iff_of_false nofun fun h => Bool.false_ne_true h.1
  | true =>
      cases p.minify text with
      | error reason =>
          constructor
          · intro h
            cases h
            exact ⟨rfl, reason, rfl, rfl⟩
          · rintro ⟨-, _, ⟨⟩, rfl⟩
            rfl
      | ok short => exact iff_of_false nofun fun ⟨_, _, h, _⟩ => nomatch h

namespace DevLoop

variable {c : Config} {p : SheetParser} {code id text : String} {s : DevLoop}

/-- The state after a stylesheet has been emitted. -/
def noteSheet (id : String) (s : DevLoop) : DevLoop :=
  { s with registry := s.registry.addRoot id, roots := s.roots.enrol id, pending := false }

/-- The run of serving a stylesheet with a directive. -/
theorem serve_sheet_eq_generate (hk : FileId.kindOf id = .stylesheet)
    (hroot : Sheet.isRoot c code = true) (p : SheetParser) (s : DevLoop) :
    (serve c p code id).run s =
      match (Sheet.generate c p code id).run s.registry with
      | (.ok output, r) =>
          (.ok (some (.sheet output)),
            { s with registry := r, roots := s.roots.enrol id, pending := false })
      | (.error fault, r) => (.error fault, { s with registry := r }) := by
  simp only [serve, hk, hroot, Bool.not_true, if_neg Bool.false_ne_true, generate, run_bind,
    onRegistry_run]
  rcases (Sheet.generate c p code id).run s.registry with ⟨_ | output, r⟩
  · rfl
  · rfl

/-- A stylesheet that the rules of the registry yield is emitted. -/
theorem serve_of_yields (h : Sheet.Yields c p s.registry.rules code id text) :
    (serve c p code id).run s =
      (.ok (some (.sheet ⟨text, s.registry.dependencies, true⟩)), noteSheet id s) := by
  rw [serve_sheet_eq_generate h.isSheet h.isRoot]
  rcases Sheet.generate_cases c p code id s.registry with
    ⟨_, hfault, _⟩ | ⟨_, _, hfault, _⟩ | ⟨_, _, hgen⟩
  · rw [h.sourceValid] at hfault
    cases hfault
  · rw [h.rulesValid] at hfault
    cases hfault
  · rw [hgen, h.finished, Sheet.noteRoot, if_pos h.isRoot, h.isRoot]
    rfl

/-- A stylesheet with a directive is refused, or the rules are, or it cannot be minified, or it
is emitted. -/
theorem serve_sheet_cases (hk : FileId.kindOf id = .stylesheet) (hroot : Sheet.isRoot c code = true)
    (p : SheetParser) (s : DevLoop) :
    (∃ reason, (serve c p code id).run s = (.error (.invalidSheet id reason), s)) ∨
    (∃ reason, (serve c p code id).run s =
      (.error (.invalidRules reason s.registry.rules), { s with registry := s.registry.clear })) ∨
    (∃ reason, (serve c p code id).run s =
      (.error (.invalidSheet id reason), { s with registry := s.registry.addRoot id })) ∨
    ∃ text, Sheet.Yields c p s.registry.rules code id text := by
  have hrun := serve_sheet_eq_generate hk hroot p s
  rcases Sheet.generate_cases c p code id s.registry with
    ⟨reason, _, hgen⟩ | ⟨reason, _, _, hgen⟩ | ⟨hsource, hrules, hgen⟩
  · rw [hgen] at hrun
    exact Or.inl ⟨reason, hrun⟩
  · rw [hgen] at hrun
    exact Or.inr (Or.inl ⟨reason, hrun⟩)
  · cases hfin : Sheet.finished c p (Sheet.expanded c s.registry.rules code) id with
    | error fault =>
        obtain ⟨-, reason, -, rfl⟩ := Sheet.finished_eq_error_iff.mp hfin
        rw [hgen, hfin, Sheet.noteRoot, if_pos hroot] at hrun
        exact Or.inr (Or.inr (Or.inl ⟨reason, hrun⟩))
    | ok text => exact Or.inr (Or.inr (Or.inr ⟨text, hk, hroot, hsource, hrules, hfin⟩))

/-- Serving a module makes nothing but reports, or drops the styles, or notes a root that cannot
be minified, or emits a stylesheet. -/
theorem serve_cases (c : Config) (p : SheetParser) (code id : String) (s : DevLoop) :
    (∃ answer reports, (serve c p code id).run s = (answer, { s with reports }) ∧
      (∀ output, answer ≠ .ok (some (.sheet output))) ∧
      ∀ fault, answer = .error fault → Script.SparesRules fault) ∨
    (∃ reason, (serve c p code id).run s =
      (.error (.invalidRules reason s.registry.rules), { s with registry := s.registry.clear })) ∨
    (∃ reason, (serve c p code id).run s =
      (.error (.invalidSheet id reason), { s with registry := s.registry.addRoot id })) ∨
    ∃ text, Sheet.Yields c p s.registry.rules code id text ∧
      (serve c p code id).run s =
        (.ok (some (.sheet ⟨text, s.registry.dependencies, true⟩)), noteSheet id s) := by
  cases hk : FileId.kindOf id with
  | other =>
      refine Or.inl ⟨.ok none, s.reports, ?_, nofun, nofun⟩
      simp only [serve, hk]
      rfl
  | script =>
      cases hx : c.excludes id with
      | true =>
          refine Or.inl ⟨.ok none, s.reports, ?_, nofun, nofun⟩
          simp only [serve, hk, hx, if_true]
          rfl
      | false =>
          refine Or.inl ⟨_, _, serve_script_run hk hx p code s, ?_, ?_⟩
          · intro output
            rcases ((Script.replaceCalls c s.registry code id).run s.reports).1 with _ | _ | _
            · exact fun h => by cases h
            · exact fun h => by cases h
            · exact fun h => by cases h
          · intro fault h
            rcases hrun : ((Script.replaceCalls c s.registry code id).run s.reports).1 with e | found
            · rw [hrun] at h
              cases h
              exact Script.sparesRules_of_replaceCalls hrun
            · rw [hrun] at h
              cases h
  | stylesheet =>
      cases hroot : Sheet.isRoot c code with
      | false =>
          refine Or.inl ⟨.ok none, s.reports, ?_, nofun, nofun⟩
          simp only [serve, hk, hroot, Bool.not_false, if_true]
          rfl
      | true =>
          rcases serve_sheet_cases hk hroot p s with
            ⟨reason, hrun⟩ | ⟨reason, hrun⟩ | ⟨reason, hrun⟩ | ⟨text, hyields⟩
          · refine Or.inl ⟨_, s.reports, hrun, ?_, ?_⟩
            · intro _ h
              cases h
            · rintro _ ⟨⟩ _ _ h
              cases h
          · exact Or.inr (Or.inl ⟨reason, hrun⟩)
          · exact Or.inr (Or.inr (Or.inl ⟨reason, hrun⟩))
          · exact Or.inr (Or.inr (Or.inr ⟨text, hyields, serve_of_yields hyields⟩))

/-- When the rules of the registry are refused, nothing is left in it. -/
theorem registry_of_invalidRules {reason rules : String}
    (h : ((serve c p code id).run s).1 = .error (.invalidRules reason rules)) :
    ((serve c p code id).run s).2.registry = s.registry.clear := by
  rcases serve_cases c p code id s with
    ⟨answer, reports, hrun, -, hspares⟩ | ⟨_, hrun⟩ | ⟨_, hrun⟩ | ⟨text, _, hrun⟩
  · rw [hrun] at h
    exact absurd rfl (hspares _ h reason rules)
  · rw [hrun]
  · rw [hrun] at h
    cases h
  · rw [hrun] at h
    cases h

end DevLoop

end StaticStyle
