import StaticStyle.Proofs.Syntax.Giving
import StaticStyle.Proofs.Syntax.Placement

/-!
# Placement of targets and of rows of operands

Two things are made from trees that have been read.  The target of an assignment is made
from an expression, and stands where that does (`Tree.Placed.toTarget`).  A row of operands
is folded by precedence: the result stands where the row does, and its span is that of the
whole row (`placed_fold`, `span_fold`).
-/

namespace StaticStyle.Syntax

open StaticStyle.Syntax.Grammar

variable {source : List Char} {lo hi : Nat} {t u : Tree} {ts us : List Tree} {k : Kind}
  {s : Text.Span}

/-- A node around the last trees stands where they do. -/
theorem PlacedAll.nodeLast (h : PlacedAll source lo hi (ts ++ us)) (hk : k.isPlain us = true)
    (s : Text.Span) : PlacedAll source lo hi (ts ++ [.node k s us]) := by
  obtain ⟨mid, hts, hus⟩ := placedAll_append.mp h
  exact hts.append (placedAll_singleton.mpr (.node hk hus s))

theorem placedAll_pair :
    PlacedAll source lo hi [t, u] ↔ ∃ mid, t.Placed source lo mid ∧ u.Placed source mid hi := by
  rw [← List.singleton_append, placedAll_append]
  simp only [placedAll_singleton]

/-! ## Targets -/

mutual

theorem Tree.Placed.toTarget : ∀ {t u : Tree} {lo hi : Nat}, t.Placed source lo hi →
    toTarget t = some u → u.Placed source lo hi
  | t, u, lo, hi, h, hu => by
      unfold Grammar.toTarget at hu
      split at hu
      · obtain ⟨cs, hcs, rfl⟩ := Option.map_eq_some_iff.mp hu
        exact .node rfl (h.parts.toTargets hcs) _
      · obtain ⟨cs, hcs, rfl⟩ := Option.map_eq_some_iff.mp hu
        exact .node rfl (h.parts.toTargets hcs) _
      · cases hu
        exact .node rfl h.parts _
      · cases hu
        exact .node rfl h.parts _
      · split at hu
        · cases hu
          exact h
        · cases hu

/-- The target that is made from an expression stands where the expression does. -/
theorem PlacedAll.toTargets : ∀ {ts us : List Tree} {lo hi : Nat}, PlacedAll source lo hi ts →
    toTargets ts = some us → PlacedAll source lo hi us
  | ts, us, lo, hi, h, hu => by
      unfold Grammar.toTargets at hu
      split at hu
      · cases hu
        exact h
      · obtain ⟨mid, hd, hle⟩ := h
        obtain ⟨e, he, rfl⟩ := Option.map_eq_some_iff.mp hu
        have htarget := (placedAll_singleton.mp hd.parts).toTarget he
        exact ⟨mid, .node rfl (placedAll_singleton.mpr htarget) _, hle⟩
      · obtain ⟨mid, hd, hts⟩ := h
        obtain ⟨vs, hvs, rfl⟩ := Option.map_eq_some_iff.mp hu
        exact ⟨mid, hd, hts.toTargets hvs⟩
      · obtain ⟨mid, hd, hts⟩ := h
        obtain ⟨v, hv, hu⟩ := Option.bind_eq_some_iff.mp hu
        obtain ⟨vs, hvs, hu⟩ := Option.bind_eq_some_iff.mp hu
        cases hu
        obtain ⟨mid', hk, hv'⟩ := placedAll_pair.mp hd.parts
        exact ⟨mid, .node rfl (placedAll_pair.mpr ⟨mid', hk, hv'.toTarget hv⟩) _, hts.toTargets hvs⟩
      · obtain ⟨mid, hd, hts⟩ := h
        obtain ⟨v, hv, hu⟩ := Option.bind_eq_some_iff.mp hu
        obtain ⟨vs, hvs, hu⟩ := Option.bind_eq_some_iff.mp hu
        cases hu
        exact ⟨mid, hd.toTarget hv, hts.toTargets hvs⟩

end

/-! ## Rows of operands -/

/-- The operands that wait and the one that comes next, in the order of the text. -/
def row (stack : List Waiting) (t : Tree) : List Tree := (stack.map Waiting.left).reverse ++ [t]

/-- Where the first of them starts. -/
def rowStart : List Waiting → Tree → Nat
  | [], t => t.span.start
  | w :: ws, _ => rowStart ws w.left

/-- The operand or the type that follows. -/
def followerTree : Follower → Tree
  | .operator _ right => right
  | .type _ type => type

/-- Where the last of a row ends. -/
def rowStop (t : Tree) (fs : List Follower) : Nat :=
  ((t :: fs.map followerTree).getLast (List.cons_ne_nil _ _)).span.stop

variable {stack : List Waiting} {op : InfixOperator} {precedence : Nat} {right : Bool}
  {fs : List Follower}

theorem rowStart_eq (h : t.span.start = u.span.start) : rowStart stack t = rowStart stack u := by
  cases stack with
  | nil => exact h
  | cons w ws => rfl

theorem rowStop_eq (h : t.span.stop = u.span.stop) : rowStop t fs = rowStop u fs := by
  cases fs with
  | nil => exact h
  | cons f fs => rfl

theorem row_cons : row (⟨t, op⟩ :: stack) u = row stack t ++ [u] := by
  rw [row, List.map_cons, List.reverse_cons]
  rfl

theorem isPlain_join (t : Tree) (op : InfixOperator) (u : Tree) (us : List Tree) :
    (join t op u).kind.isPlain us = true := by
  unfold join
  dsimp only [Tree.kind]
  split <;> rfl

theorem placed_reduce (h : PlacedAll source lo hi (row stack t)) :
    PlacedAll source lo hi
      (row (reduce precedence right stack t).1 (reduce precedence right stack t).2) := by
  induction stack generalizing t with
  | nil => exact h
  | cons w ws ih =>
      unfold reduce
      split
      · apply ih
        rw [row, List.map_cons, List.reverse_cons, List.append_assoc] at h
        exact h.nodeLast (isPlain_join w.left w.op t _) _
      · exact h

theorem rowStart_reduce : rowStart (reduce precedence right stack t).1
    (reduce precedence right stack t).2 = rowStart stack t := by
  induction stack generalizing t with
  | nil => rfl
  | cons w ws ih =>
      unfold reduce
      split
      · rw [ih, rowStart]
        exact rowStart_eq rfl
      · rfl

theorem stop_reduce : (reduce precedence right stack t).2.span.stop = t.span.stop := by
  induction stack generalizing t with
  | nil => rfl
  | cons w ws ih =>
      unfold reduce
      split
      · rw [ih]
        rfl
      · rfl

/-- At the end of a row nothing waits any more. -/
theorem reduce_zero : (reduce 0 false stack t).1 = [] := by
  induction stack generalizing t with
  | nil => rfl
  | cons w ws ih =>
      have hpos : 0 < w.op.precedence := by
        cases w.op with
        | binary op => cases op <;> decide
        | logical op => cases op <;> decide
      unfold reduce
      rw [if_pos (by simp [hpos])]
      exact ih

/-- A row that is folded stands where its operands do. -/
theorem placed_fold {isTight : Bool}
    (h : PlacedAll source lo hi (row stack t ++ fs.map followerTree))
    (ht : IsOperand t) (hfits : ∀ f ∈ fs, Fits f)
    (hrow : isRow (isPrivateName t) isTight fs = true) : (fold stack t fs).Placed source lo hi := by
  induction fs generalizing stack t isTight with
  | nil =>
      rw [List.map_nil, List.append_nil] at h
      have hreduce : PlacedAll source lo hi (row (reduce 0 false stack t).1 _) := placed_reduce h
      rw [reduce_zero] at hreduce
      exact placedAll_singleton.mp hreduce
  | cons f fs ih =>
      obtain ⟨hf, hrest⟩ := List.forall_mem_cons.mp hfits
      obtain ⟨mid, hplaced, hfs⟩ := placedAll_append.mp h
      cases f with
      | operator op right =>
          refine ih ?_ hf hrest (Bool.and_eq_true_iff.mp hrow).2
          rw [row_cons, List.append_assoc]
          exact (placed_reduce hplaced).append hfs
      | type kind type =>
          obtain ⟨hpublic, hbehind⟩ := Bool.and_eq_true_iff.mp hrow
          have hoperand : t.kind.isExpression = true := ht ((Bool.not_eq_true' _).mp hpublic)
          have hcast : ∀ s us, (Tree.node kind s us).kind.isExpression = true := fun _ _ =>
            Kind.isExpression_of_wraps hf
          refine ih ?_ (fun _ => hcast _ _) hrest
            ((isPrivateName_of_isExpression (hcast _ _)).symm ▸ hbehind)
          obtain ⟨mid', htype, hfs⟩ := hfs
          have hboth : PlacedAll source lo mid' (row (reduce comparePrecedence false stack t).1
              (reduce comparePrecedence false stack t).2 ++ [type]) :=
            (placed_reduce hplaced).append (placedAll_singleton.mpr htype)
          rw [row, List.append_assoc] at hboth
          exact (hboth.nodeLast (isPlain_wrapper hf (isExpression_reduce hoperand)) _).append hfs

/-- A row that is folded covers the row. -/
theorem span_fold : (fold stack t fs).span = ⟨rowStart stack t, rowStop t fs⟩ := by
  induction fs generalizing stack t with
  | nil =>
      have hstart : rowStart (reduce 0 false stack t).1 (reduce 0 false stack t).2 = _ :=
        rowStart_reduce
      have hstop : (reduce 0 false stack t).2.span.stop = _ := stop_reduce
      rw [reduce_zero] at hstart
      rw [← hstart]
      change _ = (⟨_, t.span.stop⟩ : Text.Span)
      rw [← hstop]
      rfl
  | cons f fs ih =>
      cases f with
      | operator op right =>
          refine ih.trans ?_
          rw [rowStart, rowStart_reduce]
          rfl
      | type kind type =>
          have hstart : rowStart (reduce comparePrecedence false stack t).1
              (reduce comparePrecedence false stack t).2 = rowStart stack t := rowStart_reduce
          refine ih.trans (congrArg₂ Text.Span.mk (Eq.trans ?_ hstart) (rowStop_eq (u := type) rfl))
          exact rowStart_eq rfl

end StaticStyle.Syntax
