import Mathlib.Algebra.GroupWithZero.Nat
import Mathlib.Algebra.Order.BigOperators.Group.List
import Mathlib.Algebra.Order.Group.Nat
import StaticStyle.Proofs.Expression.Running

/-!
# Constants that may still be worked out

A constant is worked out once at most: afterwards its value is kept, and a reference to it in the
meantime is a failure.  The constants that are neither known nor being worked out are
outstanding.  If each has a weight, then the weight of one that is going to be worked out has been
part of the weight of all that are outstanding (`Expression.weight_add_outstanding_le`), and is so
no more from then on (`Expression.outstanding_keep`).
-/

namespace StaticStyle.Expression

/-- The weight of the initial values of constants. -/
def weigh (weight : Expression → Nat) (constants : Constants) : Nat :=
  (constants.map fun constant => weight constant.2).sum

/-- The weight of the constants that are neither known nor being worked out. -/
def outstanding (weight : Expression → Nat) (constants : Constants)
    (known : List (String × Value)) (resolving : List String) : Nat :=
  weigh weight (constants.filter fun constant =>
    (known.lookup constant.1).isNone && !resolving.contains constant.1)

variable {weight : Expression → Nat} {constants : Constants} {known : List (String × Value)}
  {resolving : List String} {name : String}

theorem weigh_le {constants' : Constants} (h : constants.Sublist constants') :
    weigh weight constants ≤ weigh weight constants' :=
  (h.map _).sum_le_sum fun _ _ => Nat.zero_le _

theorem outstanding_le (weight : Expression → Nat) (constants : Constants)
    (known : List (String × Value)) (resolving : List String) :
    outstanding weight constants known resolving ≤ weigh weight constants :=
  weigh_le List.filter_sublist

theorem outstanding_cons (constant : String × Expression) (rest : Constants)
    (known : List (String × Value)) (resolving : List String) :
    outstanding weight (constant :: rest) known resolving =
      (if (known.lookup constant.1).isNone && !resolving.contains constant.1
        then weight constant.2 else 0) + outstanding weight rest known resolving := by
  unfold outstanding weigh
  rw [List.filter_cons]
  split
  · rw [List.map_cons, List.sum_cons]
  · rw [Nat.zero_add]

/-- A constant that is being worked out is outstanding no more. -/
theorem outstanding_resolving_le (weight : Expression → Nat) (constants : Constants)
    (known : List (String × Value)) (resolving : List String) (name : String) :
    outstanding weight constants known (name :: resolving) ≤
      outstanding weight constants known resolving := by
  refine weigh_le (List.monotone_filter_right constants ?_)
  intro constant h
  rw [List.contains_cons, Bool.not_or, Bool.and_eq_true, Bool.and_eq_true] at h
  rw [Bool.and_eq_true]
  exact ⟨h.1, h.2.2⟩

/-- A constant that is going to be worked out has been outstanding. -/
theorem weight_add_outstanding_le (weight : Expression → Nat) {initial : Expression}
    (hget : constants.get? name = some initial) (hunknown : known.lookup name = none)
    (hfresh : name ∉ resolving) :
    weight initial + outstanding weight constants known (name :: resolving) ≤
      outstanding weight constants known resolving := by
  induction constants with
  | nil => cases hget
  | cons constant rest ih =>
      obtain ⟨other, initial'⟩ := constant
      rw [outstanding_cons, outstanding_cons]
      unfold Table.get? at hget
      split at hget
      · rename_i hsame
        cases hget
        subst hsame
        have hbefore : ((known.lookup other).isNone && !resolving.contains other) = true := by
          simp [hunknown, hfresh]
        have hafter : ((known.lookup other).isNone && !(other :: resolving).contains other) =
            false := by
          simp
        have hrest := outstanding_resolving_le weight rest known resolving other
        rw [if_pos hbefore, hafter, if_neg Bool.false_ne_true]
        dsimp only
        omega
      · rename_i hdiffer
        have hrest := ih hget
        have hother : (name :: resolving).contains other = resolving.contains other := by
          simp [hdiffer]
        dsimp only
        rw [hother]
        omega

/-- A constant is outstanding no more once its value is kept, as while it was being worked out. -/
theorem outstanding_keep (weight : Expression → Nat) (constants : Constants)
    (known : List (String × Value)) (resolving : List String) (name : String) (value : Value) :
    outstanding weight constants ((name, value) :: known) resolving =
      outstanding weight constants known (name :: resolving) := by
  unfold outstanding
  congr 1
  refine List.filter_congr ?_
  intro constant _
  rw [List.lookup_cons, List.contains_cons]
  cases constant.1 == name with
  | true => simp
  | false => simp

end StaticStyle.Expression
