import Mathlib.Data.List.Forall2
import StaticStyle.Script.Rules

/-!
# What the rules of a script depend on

`Script.rulesOf` are the rules of the text of a file, or the first error on the
way to them: the text is no module, or a call has no rule.

The rules come from three settings of the build, which `Config.Alike` compares:
the style function, the names of classes and the limits of evaluation.  The name
of the file matters in two ways only.  It says in which language the text is
written (`read_of_path_eq`), and it is told in errors, so a call that has a rule
has the same rule under any other name (`ruleOf_of_file`).
-/

namespace StaticStyle

/-! ## Going through a list -/

section

variable {ε α β : Type} {f : α → Except ε β} {xs : List α} {ys : List β} {e : ε}

theorem mapM_cons_eq_ok_iff {x : α} :
    (x :: xs).mapM f = .ok ys ↔ ∃ y, f x = .ok y ∧ ∃ ys', xs.mapM f = .ok ys' ∧ ys = y :: ys' := by
  rw [List.mapM_cons]
  rcases f x with e | y
  · constructor
    · nofun
    · nofun
  · rcases xs.mapM f with e | ys'
    · constructor
      · nofun
      · nofun
    · constructor
      · rintro h
        cases h
        exact ⟨y, rfl, ys', rfl, rfl⟩
      · rintro ⟨_, hy, _, hys, rfl⟩
        cases hy
        cases hys
        rfl

/-- A list is gone through to the end if every item has a result. -/
theorem mapM_eq_ok_iff : xs.mapM f = .ok ys ↔ List.Forall₂ (fun x y => f x = .ok y) xs ys := by
  induction xs generalizing ys with
  | nil =>
      rw [List.forall₂_nil_left_iff, List.mapM_nil]
      constructor
      · intro h
        cases h
        rfl
      · intro h
        subst h
        rfl
  | cons x xs ih =>
      rw [mapM_cons_eq_ok_iff, List.forall₂_cons_left_iff]
      constructor
      · rintro ⟨y, hy, ys', hys, rfl⟩
        exact ⟨y, ys', hy, ih.mp hys, rfl⟩
      · rintro ⟨y, ys', hy, hys, rfl⟩
        exact ⟨y, hy, ys', ih.mpr hys, rfl⟩

/-- Otherwise it is gone through up to the first item that fails. -/
theorem exists_of_mapM_eq_error (h : xs.mapM f = .error e) :
    ∃ before x after ys, xs = before ++ x :: after ∧
      List.Forall₂ (fun x y => f x = .ok y) before ys ∧ f x = .error e := by
  induction xs with
  | nil => cases h
  | cons x xs ih =>
      rw [List.mapM_cons] at h
      cases hx : f x with
      | error e' =>
          rw [hx] at h
          cases h
          exact ⟨[], x, xs, [], rfl, .nil, hx⟩
      | ok y =>
          rw [hx] at h
          cases hxs : xs.mapM f with
          | ok ys => rw [hxs] at h; cases h
          | error e' =>
              rw [hxs] at h
              cases h
              obtain ⟨before, x', after, ys, rfl, hys, hx'⟩ := ih hxs
              exact ⟨x :: before, x', after, y :: ys, rfl, .cons hx hys, hx'⟩

/-- Each result is the one of an item. -/
theorem exists_of_forall₂ {R : α → β → Prop} (h : List.Forall₂ R xs ys) {y : β} (hy : y ∈ ys) :
    ∃ x ∈ xs, R x y := by
  induction h with
  | nil => cases hy
  | cons hR _ ih =>
      rcases List.mem_cons.mp hy with rfl | hy
      · exact ⟨_, List.mem_cons_self, hR⟩
      · obtain ⟨x, hx, hxy⟩ := ih hy
        exact ⟨x, List.mem_cons_of_mem _ hx, hxy⟩

/-- Each item has a result. -/
theorem exists_of_forall₂_left {R : α → β → Prop} (h : List.Forall₂ R xs ys) {x : α}
    (hx : x ∈ xs) : ∃ y ∈ ys, R x y :=
  exists_of_forall₂ (R := flip R) h.flip hx

theorem bind_eq_ok_iff {x : Except ε α} {g : α → Except ε β} {b : β} :
    (x >>= g) = .ok b ↔ ∃ a, x = .ok a ∧ g a = .ok b := by
  cases x with
  | error e =>
      constructor
      · nofun
      · nofun
  | ok a =>
      constructor
      · intro h
        exact ⟨a, rfl, h⟩
      · rintro ⟨_, ⟨⟩, h⟩
        exact h

theorem mapError_eq_ok_iff {ε' : Type} {g : ε → ε'} {x : Except ε α} {a : α} :
    x.mapError g = .ok a ↔ x = .ok a := by
  cases x with
  | error e =>
      constructor
      · nofun
      · nofun
  | ok b =>
      constructor
      · intro h
        cases h
        rfl
      · intro h
        cases h
        rfl

end

/-- Two builds make the same rules: they look for the same function, name classes in the
same way and evaluate within the same limits. -/
structure Config.Alike (c c' : Config) : Prop where
  function : c'.function = c.function
  naming : c'.naming = c.naming
  limits : c'.limits = c.limits

theorem Config.Alike.refl (c : Config) : c.Alike c := ⟨rfl, rfl, rfl⟩

/-- The policy on unknown styles has no part in the rules. -/
theorem Config.alike_unknown (c : Config) (policy : UnknownPolicy) :
    c.Alike { c with unknown := policy } := ⟨rfl, rfl, rfl⟩

namespace Script

variable {c c' : Config} {script : Script} {call : StyleCall} {code file other : String}
  {e : ClassRule} {rules : List ClassRule}

/-! ## One call -/

theorem ruleOf_eq_ok_iff :
    script.ruleOf c file call = .ok e ↔
      ∃ d, script.evaluate call file c.limits = .ok d ∧
        ∃ key, d.canonicalKey c.theme = .ok key ∧ e = ⟨c.naming.classOf key, d, key⟩ := by
  unfold ruleOf
  rcases script.evaluate call file c.limits with e' | d
  · constructor
    · nofun
    · nofun
  · change ((d.canonicalKey c.theme).map _).mapError _ = _ ↔ _
    rw [mapError_eq_ok_iff]
    cases hkey : d.canonicalKey c.theme with
    | error e' =>
        constructor
        · nofun
        · rintro ⟨_, hd, _, hkey', _⟩
          cases hd
          rw [hkey] at hkey'
          cases hkey'
    | ok key =>
        constructor
        · intro h
          cases h
          exact ⟨d, rfl, key, hkey, rfl⟩
        · rintro ⟨_, hd, _, hkey', rfl⟩
          cases hd
          rw [hkey] at hkey'
          cases hkey'
          rfl

theorem className_of_ruleOf (h : script.ruleOf c file call = .ok e) :
    e.className = c.naming.classOf e.key := by
  obtain ⟨d, _, key, _, rfl⟩ := ruleOf_eq_ok_iff.mp h
  rfl

theorem ruleOf_alike (h : c.Alike c') (script : Script) (file : String) :
    script.ruleOf c' file = script.ruleOf c file := by
  funext call
  unfold ruleOf
  rw [h.naming, h.limits]

/-- The name of the file is told in errors only. -/
theorem evaluate_of_file {limits : Expression.Limits} {d : Declaration}
    (h : script.evaluate call file limits = .ok d) :
    script.evaluate call other limits = .ok d := by
  unfold evaluate at h ⊢
  cases harg : call.argument with
  | none =>
      rw [harg] at h
      cases h
  | some argument =>
      rw [harg] at h
      exact mapError_eq_ok_iff.mpr (mapError_eq_ok_iff.mp h)

theorem ruleOf_of_file (h : script.ruleOf c file call = .ok e) :
    script.ruleOf c other call = .ok e := by
  obtain ⟨d, hd, key, hkey, rfl⟩ := ruleOf_eq_ok_iff.mp h
  exact ruleOf_eq_ok_iff.mpr ⟨d, evaluate_of_file hd, key, hkey, rfl⟩

/-! ## A whole script -/

/-- The rules of the text of a file. -/
def rulesOf (c : Config) (code file : String) : Except StyleError (List ClassRule) := do
  let script ← Script.read c.function code file
  script.rules c file

/-- Names with the same path are written in the same language. -/
theorem read_of_path_eq {f : StyleFunction} (hp : FileId.path other = FileId.path file)
    (h : Script.read f code file = .ok script) : Script.read f code other = .ok script := by
  have hl : FileId.language other = FileId.language file := by
    unfold FileId.language
    rw [hp]
  simp only [Script.read, hl] at h ⊢
  cases hm : Syntax.parseModule (FileId.language file) code.toList with
  | none =>
      rw [hm] at h
      cases h
  | some program =>
      rw [hm] at h
      exact h

theorem rules_eq_ok_iff :
    script.rules c file = .ok rules ↔
      List.Forall₂ (fun call e => script.ruleOf c file call = .ok e) script.calls rules :=
  mapM_eq_ok_iff

/-- There is a rule for each call. -/
theorem rules_eq_nil_iff (h : script.rules c file = .ok rules) : rules = [] ↔ script.calls = [] := by
  rw [← List.length_eq_zero_iff, ← (rules_eq_ok_iff.mp h).length_eq, List.length_eq_zero_iff]

theorem rulesOf_eq_ok_iff :
    rulesOf c code file = .ok rules ↔
      ∃ script, Script.read c.function code file = .ok script ∧ script.rules c file = .ok rules := by
  unfold rulesOf
  cases Script.read c.function code file with
  | error e => simp [bind, Except.bind]
  | ok script => simp [bind, Except.bind]

theorem rulesOf_alike (h : c.Alike c') (code file : String) :
    rulesOf c' code file = rulesOf c code file := by
  simp only [rulesOf, rules, h.function, ruleOf_alike h]

/-- A script has the same rules under every name with the same path. -/
theorem rulesOf_of_path_eq (hp : FileId.path other = FileId.path file)
    (h : rulesOf c code file = .ok rules) : rulesOf c code other = .ok rules := by
  obtain ⟨script, hread, hr⟩ := rulesOf_eq_ok_iff.mp h
  refine rulesOf_eq_ok_iff.mpr ⟨script, read_of_path_eq hp hread, ?_⟩
  exact rules_eq_ok_iff.mpr ((rules_eq_ok_iff.mp hr).imp fun _ _ hcall => ruleOf_of_file hcall)

/-- The rules of a file stand under the class names of their keys. -/
theorem className_of_rulesOf (h : rulesOf c code file = .ok rules) :
    ∀ e ∈ rules, e.className = c.naming.classOf e.key := by
  obtain ⟨script, _, hr⟩ := rulesOf_eq_ok_iff.mp h
  intro e he
  obtain ⟨call, _, hcall⟩ := exists_of_forall₂ (rules_eq_ok_iff.mp hr) he
  exact className_of_ruleOf hcall

end Script

end StaticStyle
