import StaticStyle.Proofs.Expression.Grammar
import StaticStyle.Proofs.Expression.Levels

/-!
# Holes of arrays

Reading and evaluation have the same number of levels.  The operands of an expression are read
from those of its tree, one level further down, except that a hole of an array takes no level when
it is read, and one when it is evaluated.  So what has been read never nests too deep for an
evaluation, unless there is an array with a hole on the last level
(`Expression.evaluate_ofTree_ne_tooDeep`).
-/

namespace StaticStyle

namespace Syntax.Tree

/-- Whether the tree is an array with a hole. -/
def hasHole : Tree → Bool
  | .node .array _ items => items.any (·.kind == .elision)
  | _ => false

end Syntax.Tree

namespace Expression

open StaticStyle.Syntax (Tree)
open StaticStyle.Syntax.Tree

/-! ## Where operands come from -/

section

variable {inner : Tree → Except Malformation Expression} {o : Expression}

theorem operands_ofName (name : String) : (ofName name).operands = [] := by
  unfold ofName
  split
  · rfl
  · split
    · rfl
    · split
      · rfl
      · rfl

theorem eq_ok_of_keyOf {computed : Bool} {key : Tree} {k : Key Expression}
    (h : keyOf inner computed key = .ok k) (ho : o ∈ k.operands) :
    computed = true ∧ inner key = .ok o := by
  unfold keyOf at h
  cases computed with
  | true =>
      obtain ⟨e, he, rfl⟩ := map_eq_ok_iff.mp h
      obtain rfl := List.mem_singleton.mp ho
      exact ⟨rfl, he⟩
  | false =>
      rw [if_neg Bool.false_ne_true] at h
      split at h
      · cases h
        cases ho
      · cases h

theorem exists_of_partOf {part : Tree} {p : Part Expression} (h : partOf inner part = .ok p)
    (ho : o ∈ p.operands) : ∃ u ∈ part.partOperands, inner u = .ok o := by
  unfold partOf at h
  split at h
  · rename_i computed shorthand s key value
    obtain ⟨k, hk, h⟩ := bind_eq_ok_iff.mp h
    obtain ⟨e, he, h⟩ := bind_eq_ok_iff.mp h
    cases h
    rcases List.mem_append.mp ho with ho | ho
    · obtain ⟨rfl, hkey⟩ := eq_ok_of_keyOf hk ho
      exact ⟨key, List.mem_cons_self, hkey⟩
    · obtain rfl := List.mem_singleton.mp ho
      refine ⟨value, ?_, he⟩
      cases computed with
      | true => exact List.mem_cons_of_mem _ (List.mem_singleton_self value)
      | false => exact List.mem_singleton_self value
  · cases h
  · rename_i s e
    obtain ⟨e', he, rfl⟩ := map_eq_ok_iff.mp h
    obtain rfl := List.mem_singleton.mp ho
    exact ⟨e, List.mem_singleton_self e, he⟩
  · cases h

theorem eq_of_itemOf {item : Tree} (h : itemOf inner item = .ok o) :
    (item.kind ≠ .elision ∧ inner item = .ok o) ∨ (item.kind = .elision ∧ o = .undefined) := by
  unfold itemOf at h
  split at h
  · cases h
  · rename_i hkind
    exact Or.inr ⟨hkind, (Except.ok.inj h).symm⟩
  · rename_i hkind
    exact Or.inl ⟨hkind, h⟩

/-- An operand is read from one of the tree, or it is undefined for a hole. -/
theorem exists_of_ofNode {t : Tree} {e : Expression} (h : ofNode inner t = .ok e)
    (ho : o ∈ e.operands) :
    (∃ u ∈ t.operands, inner u = .ok o) ∨ (t.hasHole = true ∧ o = .undefined) := by
  unfold ofNode at h
  split at h
  · cases h
    cases ho
  · cases h
    cases ho
  · cases h
    cases ho
  · cases h
    cases ho
  · cases h
    rw [operands_ofName] at ho
    cases ho
  · obtain ⟨items, hitems, rfl⟩ := map_eq_ok_iff.mp h
    exact Or.inl (exists_of_forall₂ (mapM_eq_ok_iff.mp hitems) ho)
  · obtain ⟨items, hitems, rfl⟩ := map_eq_ok_iff.mp h
    obtain ⟨item, hmem, hitem⟩ := exists_of_forall₂ (mapM_eq_ok_iff.mp hitems) ho
    rcases eq_of_itemOf hitem with ⟨hkind, hread⟩ | ⟨hkind, rfl⟩
    · exact Or.inl ⟨item, List.mem_filter.mpr ⟨hmem, bne_iff_ne.mpr hkind⟩, hread⟩
    · exact Or.inr ⟨List.any_eq_true.mpr ⟨item, hmem, beq_iff_eq.mpr hkind⟩, rfl⟩
  · obtain ⟨parts, hparts, rfl⟩ := map_eq_ok_iff.mp h
    obtain ⟨p, hp, ho⟩ := List.mem_flatMap.mp ho
    obtain ⟨part, hmem, hpart⟩ := exists_of_forall₂ (mapM_eq_ok_iff.mp hparts) hp
    obtain ⟨u, hu, hread⟩ := exists_of_partOf hpart ho
    exact Or.inl ⟨u, List.mem_flatMap.mpr ⟨part, hmem, hu⟩, hread⟩
  · obtain ⟨test, htest, h⟩ := bind_eq_ok_iff.mp h
    obtain ⟨whenTrue, htrue, h⟩ := bind_eq_ok_iff.mp h
    obtain ⟨whenFalse, hfalse, h⟩ := bind_eq_ok_iff.mp h
    cases h
    simp only [Expression.operands, List.mem_cons, List.not_mem_nil, or_false] at ho
    rcases ho with rfl | rfl | rfl
    · exact Or.inl ⟨_, List.mem_cons_self, htest⟩
    · exact Or.inl ⟨_, by simp [Tree.operands], htrue⟩
    · exact Or.inl ⟨_, by simp [Tree.operands], hfalse⟩
  · obtain ⟨op, -, h⟩ := bind_eq_ok_iff.mp h
    obtain ⟨operand, hoperand, h⟩ := bind_eq_ok_iff.mp h
    cases h
    obtain rfl := List.mem_singleton.mp ho
    exact Or.inl ⟨_, List.mem_cons_self, hoperand⟩
  · obtain ⟨op, -, h⟩ := bind_eq_ok_iff.mp h
    obtain ⟨left, hleft, h⟩ := bind_eq_ok_iff.mp h
    obtain ⟨right, hright, h⟩ := bind_eq_ok_iff.mp h
    cases h
    simp only [Expression.operands, List.mem_cons, List.not_mem_nil, or_false] at ho
    rcases ho with rfl | rfl
    · exact Or.inl ⟨_, List.mem_cons_self, hleft⟩
    · exact Or.inl ⟨_, by simp [Tree.operands], hright⟩
  · obtain ⟨left, hleft, h⟩ := bind_eq_ok_iff.mp h
    obtain ⟨right, hright, h⟩ := bind_eq_ok_iff.mp h
    cases h
    simp only [Expression.operands, List.mem_cons, List.not_mem_nil, or_false] at ho
    rcases ho with rfl | rfl
    · exact Or.inl ⟨_, List.mem_cons_self, hleft⟩
    · exact Or.inl ⟨_, by simp [Tree.operands], hright⟩
  · obtain ⟨owner, howner, h⟩ := bind_eq_ok_iff.mp h
    cases h
    obtain rfl := List.mem_singleton.mp ho
    exact Or.inl ⟨_, List.mem_cons_self, howner⟩
  · obtain ⟨owner, howner, h⟩ := bind_eq_ok_iff.mp h
    obtain ⟨key, hkey, h⟩ := bind_eq_ok_iff.mp h
    cases h
    simp only [Expression.operands, Key.operands, List.mem_cons, List.not_mem_nil, or_false] at ho
    rcases ho with rfl | rfl
    · exact Or.inl ⟨_, List.mem_cons_self, howner⟩
    · exact Or.inl ⟨_, by simp [Tree.operands], hkey⟩
  -- What is left is refused.
  · cases h
  · cases h
  · cases h
  · cases h
  · cases h

end

/-! ## Levels -/

section

variable {locals : List (String × Value)} {constants : Constants} {t : Tree} {e : Expression}

/-- What is read within some levels nests no deeper, if there is no hole on the last of them. -/
theorem fits_of_ofTreeWithin {levels : Nat} (h : ofTreeWithin levels t = .ok e)
    (hclosed : ∀ name ∈ e.names, locals.lookup name = none → constants.get? name = none)
    (hholes : ∀ u, StandsBelow (levels - 1) t u → u.unwrap.hasHole = false) :
    Fits locals constants levels e := by
  induction levels generalizing t e with
  | zero => cases h
  | succ levels ih =>
      intro o ho
      have hoperand : o ∈ e.operands := by
        cases e with
        | identifier name =>
            -- The name of a constant would take more levels.
            unfold nextLevel at ho
            dsimp only at ho
            split at ho
            · cases ho
            · rename_i hlocal
              rw [hclosed name (List.mem_singleton_self name) hlocal] at ho
              cases ho
        | _ => exact ho
      rcases exists_of_ofNode h hoperand with ⟨u, hu, hread⟩ | ⟨hhole, rfl⟩
      · refine ih hread ?_ ?_
        · intro name hname
          exact hclosed name (names_subset_of_mem_operands hoperand hname)
        · intro v hbelow
          cases levels with
          | zero => cases hread
          | succ levels => exact hholes v (.inside hu hbelow)
      · cases levels with
        | zero =>
            rw [hholes t (.here t)] at hhole
            cases hhole
        | succ levels => exact fun inner hinner => nomatch hinner

/-- The evaluation of what has been read never nests too deep, if no name in it stands for a
constant and no array on the last level has a hole. -/
theorem evaluate_ofTree_ne_tooDeep (constants : Constants) (limits : Limits)
    (he : ofTree t = .ok e)
    (hclosed : ∀ name ∈ e.names, locals.lookup name = none →
      (limits.level.restrict constants).get? name = none)
    (hholes : ∀ u, StandsBelow (maxNesting - 1) t u → u.unwrap.hasHole = false) :
    evaluate e locals (limits.level.restrict constants) limits ≠ .error .tooDeep :=
  evaluate_ne_tooDeep_of_fits (fits_of_ofTreeWithin he hclosed hholes) limits

end

/-- A negation of a negation, and so on, with a tree in the innermost. -/
def negated : (levels : Nat) → Tree → Tree
  | 0, t => t
  | levels + 1, t => .node (.unary .not) ⟨0, 0⟩ [negated levels t]

/-- An array with nothing but a hole. -/
def holed : Tree := .node .array ⟨0, 0⟩ [.node .elision ⟨0, 0⟩ []]

/-- On the level before the last one, an array may have a hole. -/
theorem evaluate_ofTree_ne_tooDeep_holed :
    ∃ e, ofTree (negated 126 holed) = .ok e ∧
      evaluate e [] [] Limits.default ≠ .error .tooDeep := by
  obtain ⟨e, he, hnames⟩ : ∃ e, ofTree (negated 126 holed) = .ok e ∧ e.names = [] :=
    Running.exists_of_toOption (by decide +kernel)
  refine ⟨e, he, evaluate_ofTree_ne_tooDeep [] Limits.default he ?_ ?_⟩
  · rw [hnames]
    exact fun name hname => nomatch hname
  · -- The hole is left out when levels are counted, so nothing stands on the last level.
    intro u hbelow
    obtain ⟨e', hread, -⟩ : ∃ e', ofTreeWithin (maxNesting - 1) (negated 126 holed) = .ok e' ∧
        e'.names = [] := Running.exists_of_toOption (by decide +kernel)
    exact absurd (exists_ofTreeWithin_iff.mp ⟨e', hread⟩ _ u hbelow).1 (Nat.lt_irrefl _)

/-- On the last level, an array with a hole is read, but its evaluation nests too deep. -/
example : (ofTree (negated 127 holed)).map
    (fun e => (evaluate e [] [] Limits.default).map Value.toText) = .ok (.error .tooDeep) := by
  decide +kernel

end Expression

end StaticStyle
