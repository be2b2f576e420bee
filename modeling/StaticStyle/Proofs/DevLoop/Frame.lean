import StaticStyle.Proofs.DevLoop.History
import StaticStyle.Proofs.DevLoop.Serving

/-!
# What serving a module leaves alone

A module is served from the styles that scans have collected, and serving it collects none.
Either the rules are invalid, and then nothing is left in the registry, or its styles, their
files and the mark of staleness are as before (`Registry.SameStyles`), and at most the module
itself has become a root.  So however many modules are served, the styles are those that the last
scan has left behind, or there are none (`DevLoop.serve_registers_nothing`).

A failure undoes nothing: what has been done to the registry by then stays.  There is one
failure that comes late enough for that, because a stylesheet is noted as a root of the registry
before it is minified.  `Sheet.Unfinished` are the stylesheets that the minifier refuses, and
`DevLoop.failure_leaves` says that they become roots and that no other failure leaves anything.
-/

namespace StaticStyle

open Running

/-! ## Registries with the same styles -/

namespace Registry

variable {r r' r'' : Registry}

/-- A registry has the styles of another, from the same files and with the same mark. -/
structure SameStyles (r r' : Registry) : Prop where
  styles : r'.styles = r.styles
  dependencies : r'.dependencies = r.dependencies
  stale : r'.stale = r.stale

theorem SameStyles.refl (r : Registry) : r.SameStyles r := ⟨rfl, rfl, rfl⟩

theorem SameStyles.trans (h : r.SameStyles r') (h' : r'.SameStyles r'') : r.SameStyles r'' :=
  ⟨h'.styles.trans h.styles, h'.dependencies.trans h.dependencies, h'.stale.trans h.stale⟩

theorem sameStyles_addRoot (file : String) (r : Registry) : r.SameStyles (r.addRoot file) :=
  ⟨rfl, rfl, rfl⟩

/-- A root that is new comes last. -/
theorem roots_addRoot (file : String) (r : Registry) :
    (r.addRoot file).roots = r.roots ∨
      file ∉ r.roots ∧ (r.addRoot file).roots = r.roots ++ [file] := by
  by_cases h : file ∈ r.roots
  · exact Or.inl (if_pos h)
  · exact Or.inr ⟨h, if_neg h⟩

end Registry

/-! ## Stylesheets that fail -/

namespace Sheet

variable {c : Config} {p : SheetParser} {code file : String} {fault : StyleError}
  {r r' : Registry}

/-- A stylesheet with a directive is put together with some rules, but the minifier refuses
it. -/
structure Unfinished (c : Config) (p : SheetParser) (rules code : String) : Prop where
  isRoot : Sheet.isRoot c code = true
  sourceValid : p.fault? code = none
  rulesValid : p.fault? rules = none
  minified : c.minify = true
  refused : ∃ reason, p.minify (expanded c rules code) = .error reason

/-- A stylesheet that the minifier refuses has been noted as a root by then. -/
theorem generate_of_unfinished (h : Unfinished c p r.rules code) (file : String) :
    ∃ reason, (generate c p code file).run r =
      (.error (.invalidSheet file reason), r.addRoot file) := by
  obtain ⟨reason, hreason⟩ := h.refused
  have hfinished : finished c p (expanded c r.rules code) file =
      .error (.invalidSheet file reason) :=
    finished_eq_error_iff.mpr ⟨h.minified, reason, hreason, rfl⟩
  refine ⟨reason, ?_⟩
  rcases generate_cases c p code file r with ⟨_, hcode, _⟩ | ⟨_, _, hrules, _⟩ | ⟨_, _, hrun⟩
  · rw [h.sourceValid] at hcode
    cases hcode
  · rw [h.rulesValid] at hrules
    cases hrules
  · rw [hrun, hfinished, noteRoot, if_pos h.isRoot]
    rfl

/-- Whatever else fails has not done anything to the registry, unless it has dropped the
styles. -/
theorem registry_of_generate_error (hspares : Script.SparesRules fault)
    (h : (generate c p code file).run r = (.error fault, r')) :
    (Unfinished c p r.rules code → r' = r.addRoot file) ∧
      (¬ Unfinished c p r.rules code → r' = r) := by
  constructor
  · intro hunfinished
    obtain ⟨reason, hrun⟩ := generate_of_unfinished hunfinished file
    rw [hrun] at h
    cases h
    rfl
  · intro hother
    rcases generate_cases c p code file r with
      ⟨reason, _, hrun⟩ | ⟨reason, _, _, hrun⟩ | ⟨hcode, hrules, hrun⟩
    · rw [hrun] at h
      cases h
      rfl
    · rw [hrun] at h
      cases h
      exact absurd rfl (hspares reason r.rules)
    · rw [hrun] at h
      cases hfin : finished c p (expanded c r.rules code) file with
      | ok text =>
          rw [hfin] at h
          cases h
      | error fault' =>
          rw [hfin] at h
          cases h
          obtain ⟨hminify, reason, hreason, -⟩ := finished_eq_error_iff.mp hfin
          -- Only a stylesheet with a directive is noted, and this one would be refused.
          have hroot : ¬ isRoot c code = true := fun hroot =>
            hother ⟨hroot, hcode, hrules, hminify, reason, hreason⟩
          rw [noteRoot, if_neg hroot]

end Sheet

/-! ## Modules that are served -/

namespace DevLoop

variable {c : Config} {p : SheetParser} {code id : String} {fault : StyleError}
  {s s' : DevLoop}

/-- What is no stylesheet with a directive leaves the registry alone. -/
theorem registry_serve_other (h : ¬ (FileId.kindOf id = .stylesheet ∧ Sheet.isRoot c code = true))
    (p : SheetParser) (s : DevLoop) : ((serve c p code id).run s).2.registry = s.registry := by
  rw [registry_serve_eq, changes, if_neg h]
  rfl

/-- How a module that is served leaves the registry, whatever comes of it. -/
structure RegistersNothing (c : Config) (p : SheetParser) (s : DevLoop) (code id : String) :
    Prop where
  /-- If the rules are invalid, nothing is left in the registry, and the loop knows of the same
  stylesheets. -/
  emptied : ∀ reason rules s', (serve c p code id).run s = (.error (.invalidRules reason rules), s') →
    s'.registry = ⟨[], [], [], true⟩ ∧ s'.roots = s.roots
  /-- Otherwise the registry has the same styles. -/
  sameStyles : ∀ answer s', (serve c p code id).run s = (answer, s') →
    (∀ reason rules, answer ≠ .error (.invalidRules reason rules)) →
      s.registry.SameStyles s'.registry
  /-- And the same roots, unless the module is a new one. -/
  roots : ∀ answer s', (serve c p code id).run s = (answer, s') →
    (∀ reason rules, answer ≠ .error (.invalidRules reason rules)) →
      s'.registry.roots = s.registry.roots ∨
        FileId.kindOf id = .stylesheet ∧ Sheet.isRoot c code = true ∧ id ∉ s.registry.roots ∧
          s'.registry.roots = s.registry.roots ++ [id]

/-- A module leaves the registry alone or becomes a root of it, unless the rules are invalid. -/
theorem registry_serve_spared {answer : Except StyleError (Option Served)}
    (h : (serve c p code id).run s = (answer, s'))
    (hspared : ∀ reason rules, answer ≠ .error (.invalidRules reason rules)) :
    s'.registry = s.registry ∨ s'.registry = s.registry.addRoot id := by
  rcases serve_cases c p code id s with
    ⟨_, reports, hrun, -, -⟩ | ⟨reason, hrun⟩ | ⟨reason, hrun⟩ | ⟨text, -, hrun⟩
  · rw [hrun] at h
    cases h
    exact Or.inl rfl
  · rw [hrun] at h
    cases h
    exact absurd rfl (hspared reason s.registry.rules)
  · rw [hrun] at h
    cases h
    exact Or.inr rfl
  · rw [hrun] at h
    cases h
    exact Or.inr rfl

theorem registersNothing (c : Config) (p : SheetParser) (s : DevLoop) (code id : String) :
    RegistersNothing c p s code id where
  emptied := by
    intro reason rules s' h
    rcases serve_cases c p code id s with
      ⟨answer, reports, hrun, -, hspares⟩ | ⟨_, hrun⟩ | ⟨_, hrun⟩ | ⟨text, -, hrun⟩
    · rw [hrun] at h
      cases h
      exact absurd rfl (hspares _ rfl reason rules)
    · rw [hrun] at h
      cases h
      exact ⟨rfl, rfl⟩
    · rw [hrun] at h
      cases h
    · rw [hrun] at h
      cases h
  sameStyles := by
    intro answer s' h hspared
    rcases registry_serve_spared h hspared with hsame | hroot
    · rw [hsame]
      exact .refl _
    · rw [hroot]
      exact Registry.sameStyles_addRoot id _
  roots := by
    intro answer s' h hspared
    by_cases hsheet : FileId.kindOf id = .stylesheet ∧ Sheet.isRoot c code = true
    · rcases registry_serve_spared h hspared with hsame | hroot
      · rw [hsame]
        exact Or.inl rfl
      · rw [hroot]
        exact (Registry.roots_addRoot id _).imp_right fun hnew => ⟨hsheet.1, hsheet.2, hnew⟩
    · have hsame := registry_serve_other hsheet p s
      rw [h] at hsame
      exact Or.inl (congrArg Registry.roots hsame)

/-- Whatever comes of a module, it adds no style. -/
theorem sameStyles_serve (c : Config) (p : SheetParser) (code id : String) (s : DevLoop) :
    s.registry.SameStyles ((serve c p code id).run s).2.registry ∨
      s.registry.clear.SameStyles ((serve c p code id).run s).2.registry := by
  rcases registry_serve c p code id s with hsame | hroot | hclear
  · rw [hsame]
    exact Or.inl (.refl _)
  · rw [hroot]
    exact Or.inl (Registry.sameStyles_addRoot id _)
  · rw [hclear]
    exact Or.inr (.refl _)

/-- No module adds a style.  The styles stay as they are, unless the rules are invalid and all are
dropped; and after any row of modules the styles are those at its start or there are none. -/
theorem serve_registers_nothing (c : Config) (p : SheetParser) (s : DevLoop) :
    (∀ code id, RegistersNothing c p s code id) ∧
      ∀ modules : List (String × String),
        let after := s.performAll c p (modules.map fun m => .serve m.1 m.2)
        s.registry.SameStyles after.registry ∨ s.registry.clear.SameStyles after.registry := by
  refine ⟨registersNothing c p s, fun modules => ?_⟩
  induction modules generalizing s with
  | nil => exact Or.inl (.refl _)
  | cons m modules ih =>
      rcases ih ((serve c p m.1 m.2).run s).2 with hrest | hrest
      · exact (sameStyles_serve c p m.1 m.2 s).imp (·.trans hrest) (·.trans hrest)
      · exact Or.inr hrest

/-! ## Failures -/

/-- What a failure leaves of a loop: all that was there, and a root of the registry if it has been
noted. -/
structure Leaves (noted : Prop) (id : String) (s s' : DevLoop) : Prop where
  /-- The registry has the same styles. -/
  sameStyles : s.registry.SameStyles s'.registry
  /-- It has the same roots, unless the module has been noted as one. -/
  roots_of_not_noted : ¬ noted → s'.registry.roots = s.registry.roots
  roots_of_noted : noted → s'.registry.roots = s.registry.roots.enrol id
  /-- The loop knows of the same stylesheets, and of the same changes. -/
  generated : s'.roots = s.roots
  pending : s'.pending = s.pending

theorem leaves_of_registry {noted : Prop} {registry : Registry} (reports : List UnknownStyle)
    (hnoted : noted → registry = s.registry.addRoot id)
    (hother : ¬ noted → registry = s.registry) :
    Leaves noted id s { s with registry, reports } := by
  by_cases h : noted
  · rw [hnoted h]
    exact ⟨Registry.sameStyles_addRoot id _, absurd h, fun _ => rfl, rfl, rfl⟩
  · rw [hother h]
    exact ⟨.refl _, fun _ => rfl, fun hnoted => absurd hnoted h, rfl, rfl⟩

theorem leaves_generate (hspares : Script.SparesRules fault)
    (h : (generate c p code id).run s = (.error fault, s')) :
    Leaves (Sheet.Unfinished c p s.registry.rules code) id s s' := by
  rw [generate, onRegistry_run] at h
  rcases hrun : (Sheet.generate c p code id).run s.registry with ⟨fault' | output, r⟩
  · rw [hrun] at h
    cases h
    obtain ⟨hnoted, hother⟩ := Sheet.registry_of_generate_error hspares hrun
    exact leaves_of_registry _ hnoted hother
  · rw [hrun] at h
    cases h

/-- What fails to be served is a script, or a stylesheet that cannot be generated. -/
theorem serve_error_cases (h : (serve c p code id).run s = (.error fault, s')) :
    (FileId.kindOf id = .script ∧ ∃ reports, s' = { s with reports }) ∨
      FileId.kindOf id = .stylesheet ∧ (generate c p code id).run s = (.error fault, s') := by
  cases hk : FileId.kindOf id with
  | other =>
      simp only [serve, hk] at h
      cases h
  | script =>
      cases hx : c.excludes id with
      | true =>
          simp only [serve, hk, hx, if_true] at h
          cases h
      | false =>
          rw [serve_script_run hk hx] at h
          exact Or.inl ⟨rfl, _, (Prod.mk.inj h).2.symm⟩
  | stylesheet =>
      cases hroot : Sheet.isRoot c code with
      | false =>
          simp only [serve, hk, hroot, Bool.not_false, if_true] at h
          cases h
      | true =>
          rw [serve_sheet_eq_generate hk hroot] at h
          refine Or.inr ⟨rfl, ?_⟩
          rw [generate, onRegistry_run]
          rcases hrun : (Sheet.generate c p code id).run s.registry with ⟨fault' | output, r⟩
          · rw [hrun] at h
            cases h
            rfl
          · rw [hrun] at h
            cases h

theorem leaves_serve (hspares : Script.SparesRules fault)
    (h : (serve c p code id).run s = (.error fault, s')) :
    Leaves (FileId.kindOf id = .stylesheet ∧ Sheet.Unfinished c p s.registry.rules code)
      id s s' := by
  rcases serve_error_cases h with ⟨hk, reports, rfl⟩ | ⟨hk, hgenerate⟩
  · rw [hk]
    exact leaves_of_registry _ (fun hsheet => by cases hsheet.1) fun _ => rfl
  · simp only [hk, true_and]
    exact leaves_generate hspares hgenerate

/-- A module that cannot be served, and a stylesheet that cannot be generated, leave a loop as it
was, unless the rules are invalid.  Only a stylesheet that the minifier refuses becomes a root of
the registry, but none of the loop. -/
theorem failure_leaves (hspares : Script.SparesRules fault) :
    ((serve c p code id).run s = (.error fault, s') →
      Leaves (FileId.kindOf id = .stylesheet ∧ Sheet.Unfinished c p s.registry.rules code)
        id s s') ∧
    ((generate c p code id).run s = (.error fault, s') →
      Leaves (Sheet.Unfinished c p s.registry.rules code) id s s') := by
  constructor
  · exact leaves_serve hspares
  · exact leaves_generate hspares

/-- The settings under which stylesheets are minified. -/
def minifying : Config := { Config.default with minify := true }

/-- A parser that takes everything, with a minifier that takes nothing. -/
def strict : SheetParser := ⟨fun _ => none, fun _ => .error "refused"⟩

/-- A loop that has been started on one script with a style. -/
def started : DevLoop :=
  ((start minifying (Files.view [("./a.ts", "css(\x7bmargin: 0\x7d)")])).run .initial).2

/-- A stylesheet that the minifier refuses becomes a root of the registry, and nothing else
changes. -/
theorem failure_leaves_root :
    ((serve minifying strict "@flow-css;" "./a.css").run started).1 =
        .error (.invalidSheet "./a.css" "refused") ∧
      started.registry.SameStyles
        ((serve minifying strict "@flow-css;" "./a.css").run started).2.registry ∧
      started.registry.roots = [] ∧
      ((serve minifying strict "@flow-css;" "./a.css").run started).2.registry.roots =
        ["./a.css"] ∧
      ((serve minifying strict "@flow-css;" "./a.css").run started).2.roots = [] := by
  have hanswer : ((serve minifying strict "@flow-css;" "./a.css").run started).1 =
      .error (.invalidSheet "./a.css" "refused") := by decide +kernel
  have hroots : started.registry.roots = [] ∧ started.roots = [] := by decide +kernel
  have hnoted : FileId.kindOf "./a.css" = .stylesheet ∧
      Sheet.Unfinished minifying strict started.registry.rules "@flow-css;" :=
    ⟨by decide, by decide +kernel, rfl, rfl, rfl, "refused", rfl⟩
  have hspares : Script.SparesRules (.invalidSheet "./a.css" "refused") := nofun
  have hleaves := (failure_leaves hspares).1 (Prod.ext hanswer rfl)
  refine ⟨hanswer, hleaves.sameStyles, hroots.1, ?_, hleaves.generated.trans hroots.2⟩
  rw [hleaves.roots_of_noted hnoted, hroots.1]
  rfl

end DevLoop

end StaticStyle
