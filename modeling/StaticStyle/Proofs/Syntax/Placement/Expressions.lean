import StaticStyle.Proofs.Syntax.Placement.Calls
import StaticStyle.Proofs.Syntax.Placement.Rows

/-!
# Placement of expressions

Unary and infix operators, arrow functions and assignments.
-/

namespace StaticStyle.Syntax

open StaticStyle.Syntax.Parser StaticStyle.Syntax.Grammar
open StaticStyle.Text (Solid)

variable {source : List Char} {self : Rules} {lo n start : Nat} {ts : List Tree} {t : Tree}
  {c : Cursor} {P : Cursor → Prop} {async inCondition : Bool}

/-- The target that is made from the last expression stands in its place. -/
theorem Behind.toTarget {u : Tree} (h : Behind source lo [t] c) (hu : toTarget t = some u) :
    Behind source lo [u] c :=
  ⟨h.inSource, placedAll_singleton.mpr ((placedAll_singleton.mp h.placed).toTarget hu)⟩

namespace Sound

/-! ## Unary operators -/

theorem unaryRule (h : Sound source self) : Expresses source (unaryRule self) := by
  refine fun n => .position (.still fun ctx => ?_)
  extract_lets applied postfixed
  have happlied : ∀ op tok, tok.isReal = true →
      Meets (fun c => Before source n c ∧ c.token = tok) (applied op) (Whole source n n) :=
    fun op tok htok => .first (fun _ => Before.toward) htok fun hs =>
      .reads h.unary.reads fun _ => .whole hs rfl
  have hpostfixed : Meets (Before source n) postfixed (Whole source n n) := by
    refine .bind (h.leftHandSide n) fun t => .still fun _ => .still fun _ => .still fun _ => ?_
    refine .ite (fun _ => .of_fact (fun _ => Whole.solid) fun hs => ?_) fun _ =>
      .pure fun _ hc => hc
    refine .pre (fun _ hc => hc.behind) (.still fun _ => .skip fun isPlus => ?_)
    exact .ite (fun _ => .skip fun _ => .whole hs rfl) fun _ => .whole hs rfl
  refine .token fun tok => ?_
  split
  · refine .ite (fun _ => .first (fun _ => Before.toward) rfl fun hs => ?_) fun _ => ?_
    · exact .reads h.unary.reads fun _ => .still fun _ => .whole hs rfl
    refine .ite (fun _ => .first (fun _ => Before.toward) rfl fun hs => ?_) fun _ => ?_
    · exact .reads h.wholeType.reads fun _ => .skip fun _ => .reads h.unary.reads fun _ =>
        .whole hs rfl
    split
    · exact happlied _ _ rfl
    · exact .pre (fun _ hc => hc.1) hpostfixed
  · refine .ite (fun _ => .first (fun _ => Before.toward) rfl fun hs => ?_) fun _ => ?_
    · exact .reads h.unary.reads fun _ => .whole hs rfl
    split
    · exact happlied _ _ rfl
    · exact .pre (fun _ hc => hc.1) hpostfixed
  · exact .pre (fun _ hc => hc.1) hpostfixed

/-! ## Infix operators -/

theorem operand (h : Sound source self) : Expresses source (operand self) := by
  refine fun n => .token fun t => ?_
  split
  · exact .positionOf (fun _ hc => hc.1.start)
      (.first (fun _ => Before.toward) rfl fun hs => .whole hs rfl)
  · exact .pre (fun _ hc => hc.1) (h.unary n)

end Sound

/-- An operator that starts with `>` starts where its first character does. -/
theorem joinShift_meets {l : Nat} : Meets (fun c => Behind source lo ts c ∧ c.last = l) joinShift
    fun _ c => Behind source lo ts c ∧ c.last = l := by
  refine .modify fun c hc => ?_
  split
  · next hmark =>
      have htoken := beq_iff_eq.mp hmark
      obtain ⟨k, hk, -, -, hlexeme⟩ := hc.1.inSource.exists_lexeme
      rw [hlexeme _ htoken] at hk
      exact ⟨hc.1.rescan (scanShift_of hk) fun _ => hc.1.inSource.solid_of_mark htoken, hc.2⟩
  · exact hc

/-- What follows an operand was read, and it ends with the last token. -/
structure Follows (source : List Char) (lo : Nat) (f : Follower) (c : Cursor) : Prop where
  behind : Behind source lo [followerTree f] c
  stop : (followerTree f).span.stop = c.last

namespace Sound

theorem follower (h : Sound source self) {l : Nat} :
    Meets (fun c => Behind source lo [] c ∧ c.last = l) (follower self)
      (Found (Follows source lo) fun c => Behind source lo [] c ∧ c.last = l) := by
  refine .bind joinShift_meets fun _ => .still fun ctx => ?_
  extract_lets after
  have hafter : ∀ text, Meets (fun c => Behind source lo [] c ∧ c.last = l) (after text)
      (Found (Follows source lo) fun c => Behind source lo [] c ∧ c.last = l) := by
    intro text
    dsimp only [after]
    split
    · exact .pre (fun _ hc => hc.1) (.skip fun _ => .bind (h.operand.closes lo) fun _ =>
        .pure fun _ hc => ⟨hc.behind, hc.stop⟩)
    · exact .pure fun _ hc => hc
  refine .still fun tok => ?_
  split
  · exact hafter _
  · next w =>
      refine .ite (fun _ => .pure fun _ hc => hc) fun _ => .still fun _ =>
        .ite (fun _ => .pre (fun _ hc => hc.1) (.skip fun _ => ?_)) fun _ => hafter w
      refine .still fun _ => .ite (fun _ => .still fun start => .skip fun _ => ?_) fun _ => ?_
      · exact .bind (.node rfl) fun name => .reads reads_absent fun _ =>
          .bind (.closed rfl) fun _ =>
          .pure fun _ hc => ⟨hc.behind, hc.stop⟩
      · exact .bind (h.wholeType lo) fun _ => .pure fun _ hc => ⟨hc.behind, hc.stop⟩
  · exact .pure fun _ hc => hc

/-- A row of operands is read whole before it is folded. -/
theorem infixExpression (h : Sound source self) : Expresses source (infixExpression self) := by
  refine fun n => .bind (.given (h.operand n) h.gives.operand) fun first => .of_and fun hoperand =>
    .of_fact (fun _ => Whole.base) fun hfirst => ?_
  refine .bind (.given (.pre (fun c hc => ?_) (.many (I := fun fs c =>
    Behind source n (first :: fs.map followerTree) c ∧ rowStop first fs = c.last) fun fs => ?_))
    (.many h.gives.follower)) fun fs => .of_and fun hfits => .require fun hrow =>
    .pure fun c hc => ?_
  · exact ⟨hc.behind, congrArg Text.Span.stop hc.span⟩
  -- Nothing that follows leaves the last token where it is.
  · intro ctx c found d ⟨hc, hstop⟩ hr
    have hnext := h.follower ⟨.of_le hc.inSource (Nat.le_refl c.last), rfl⟩ hr
    cases found with
    | none => exact ⟨⟨hnext.1.inSource, hnext.2 ▸ hc.placed⟩, hstop.trans hnext.2.symm⟩
    | some f =>
        constructor
        · rw [List.map_append]
          exact .append hc.placed hnext.behind
        · rw [← hnext.stop]
          simp [rowStop]
  · refine ⟨⟨hc.1.inSource, placedAll_singleton.mpr (placed_fold hc.1.placed hoperand hfits hrow)⟩, ?_,
      hfirst.solid⟩
    rw [span_fold, hc.2, rowStart, hfirst.start]

/-! ## Arrow functions -/

theorem typeParameters_toward (h : Sound source self) :
    Meets (Toward source n []) (Grammar.typeParameters self) fun t => Toward source n [t] := by
  refine .still fun ctx => .atMark (.ite (fun _ => .still fun start => ?_) fun _ => ?_)
    (.ite (fun htyped => absurd htyped (by simp)) fun _ => .absent_toward)
  · refine .first (fun _ hc => hc) rfl fun hs => .reads (.commaList h.typeParameter) fun ps => ?_
    exact .still fun _ => .post (.node rfl) fun _ _ => Behind.toward hs
  · exact .pre (fun _ hc => hc.1) .absent_toward

theorem arrowBody (h : Sound source self) (hs : Solid source n) :
    Meets (Behind source n ts) (arrowBody self start async inCondition ts)
      (Whole source n start) := by
  refine .still fun _ => .still fun _ => .skip fun _ => .still fun _ =>
    .ite (fun _ => ?_) fun _ => ?_
  · exact .reads h.functionBody fun _ => .whole hs rfl
  · exact .reads (h.assignment inCondition).reads.inContext fun _ => .whole hs rfl

theorem parenthesizedArrow (h : Sound source self) :
    Covers source start (parenthesizedArrow self start async inCondition) := by
  refine fun n => .bind h.typeParameters_toward fun types =>
    .bind h.parameters.toward.inContext fun ps => .of_and fun hs =>
      .reads h.resultAnnotated fun r => .bind (h.arrowBody hs) fun t => ?_
  exact .ite (fun _ => .still fun _ => .still fun _ => .pure fun _ hc => hc) fun _ =>
    .pure fun _ hc => hc

theorem simpleArrow (h : Sound source self) :
    Covers source start (simpleArrow self start async inCondition) := by
  refine fun n => .bind .absent_toward fun types => .still fun at_ =>
    .bind .group_nil_toward fun ds =>
    .bind expresses_binding.toward fun b => .of_and fun hs => ?_
  exact .bind (.behind [types] [ds, b] fun _ => .node rfl) fun p =>
    .bind (.behind [types] [p] fun _ => .node rfl) fun ps => .reads reads_absent fun r =>
      h.arrowBody hs

theorem arrowFunction (h : Sound source self) :
    Meets (Before source n) (arrowFunction self inCondition)
    (Found (Whole source n n) (Before source n)) := by
  refine .position (.still fun ctx => .get fun c => ?_)
  extract_lets second tryParenthesized
  have htry : ∀ (async : Bool) (P : Cursor → Prop), (∀ c, P c → Toward source n [] c) →
      Meets P (tryParenthesized async) (Found (Whole source n n) P) := by
    refine fun async P hP => .still fun verdict => ?_
    split
    · exact .bind (.pre hP (h.parenthesizedArrow n)) fun _ => .pure fun _ hc => hc
    · exact .pure fun _ hc => hc
    · exact .attempt (.pre hP (h.parenthesizedArrow n))
  have hsimple : ∀ async, Meets (Toward source n []) (do
      return some (← Grammar.simpleArrow self n async inCondition))
      (Found (Whole source n n) (Before source n)) :=
    fun async => .bind (h.simpleArrow n) fun _ => .pure fun _ hc => hc
  refine .ite (fun _ => .pre (fun _ hc => hc.1.toward) (hsimple false)) fun _ =>
    .ite (fun hasync => ?_)
    fun _ => .ite (fun _ => .pre (fun _ hc => hc.1) (htry false _ fun _ => Before.toward)) fun _ =>
      .pure fun _ hc => hc.1
  have htoken : c.token = .word "async" false := beq_iff_eq.mp (Bool.and_eq_true_iff.mp hasync).1
  have hnext : ∀ d, Before source n d ∧ d = c → Before source n d ∧ d.token = .word "async" false :=
    fun d hd => ⟨hd.1, hd.2 ▸ htoken⟩
  refine .pre hnext (.ite (fun _ => ?_) fun _ => .ite (fun _ => ?_) fun _ => .pure fun _ hc => hc.1)
  · exact .first (fun _ => Before.toward) rfl fun hs =>
      .pre (fun _ => Behind.toward hs) (hsimple true)
  · refine .post (.attempt (R := Whole source n n) ?_) fun found d hd => ?_
    · refine .first (fun _ => Before.toward) rfl fun hs => .pre (fun _ => Behind.toward hs) ?_
      refine .bind (htry true _ fun _ hc => hc) fun found => ?_
      cases found with
      | none => exact .failure
      | some t => exact .pure fun _ hc => hc
    · cases found with
      | none => exact hd.1
      | some t => exact hd

/-! ## Assignments -/

theorem yieldExpression (h : Sound source self) : Expresses source (yieldExpression self) := by
  refine fun n => .position (.opens (fun _ => Before.toward) fun _ hs => .still fun _ => ?_)
  refine .ite (fun _ => .whole hs rfl) fun _ => .skip fun _ => .ite (fun _ => ?_) fun _ => ?_
  · exact .reads (h.assignment false).reads fun _ => .whole hs rfl
  · exact .still fun tok => .ite (fun _ => .whole hs rfl) fun _ =>
      .reads (h.assignment false).reads fun _ => .whole hs rfl

theorem assignmentRule (h : Sound source self) :
    Expresses source (assignmentRule self inCondition) := by
  refine fun n => .still fun ctx => .position (.still fun _ => .ite (fun _ => h.yieldExpression n)
    fun _ => .bind h.arrowFunction fun found => ?_)
  cases found with
  | some t => exact .pure fun _ hc => hc
  | none =>
      refine .bind (h.infixExpression n) fun t => .of_fact (fun _ => Whole.solid) fun hs => ?_
      extract_lets finish
      have hfinish : ∀ r, Meets (Whole source n n t) (finish r) (Whole source n n) := by
        refine fun _ => .eat (fun c hc _ => hc.behind.next) ?_ (.pure fun _ hc => hc)
        exact .reads (h.assignment true).reads.inContext fun _ => .skip fun _ =>
          .reads (h.assignment inCondition).reads fun _ => .whole hs rfl
      refine .still fun _ => .ite (fun _ => .elim fun target htarget => ?_) fun _ =>
        .still fun tok => ?_
      · exact .pre (fun _ hc => hc.behind.toTarget htarget) (.skip fun _ =>
          .reads (h.assignment inCondition).reads fun _ => .whole hs rfl)
      · split
        · refine .ite (fun _ => .still fun _ => .pre (fun _ hc => hc.behind) ?_) fun _ => hfinish ()
          exact .skip fun _ => .reads (h.assignment inCondition).reads fun _ => .whole hs rfl
        · exact hfinish ()

theorem expressionRule (h : Sound source self) : Expresses source (expressionRule self) := by
  refine fun n => .position (.bind (.separated (F := fun t c => t.span = ⟨n, c.last⟩)
    ((h.assignment false n).post fun t c ht => ⟨ht.solid, ht.behind, ht.span⟩)
    (h.assignment false).reads) fun ts => .of_and fun hs => ?_)
  split
  · exact .pure fun c hc => ⟨hc.1, hc.2 _ rfl, hs⟩
  · exact .pre (fun _ hc => hc.1) (.whole hs rfl)

end Sound

end StaticStyle.Syntax
