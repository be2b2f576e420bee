import StaticStyle.Proofs.Declaration.Nesting
import StaticStyle.Proofs.Expression.Size

/-!
# How large a static style is

The steps of an evaluation do not bound the number of entries of a style: a second reference to a
constant takes one step and copies all that is in its value (`Declaration.size_exceeds_budget`).

With a further step for each item and entry that is copied they do, and the steps that the copies
take are bounded by those of the evaluation alone (`Declaration.size_bounded`).
-/

namespace StaticStyle.Declaration

open StaticStyle.Expression (Limits)

variable {text : String} {constants : Constants} {limits : Limits} {style : Style}

/-- The style of a text, copies of the values of constants being paid for. -/
def readPaying (text : String) (constants : Constants) (limits : Limits) :
    Except Malformation Style := do
  let e ← expressionOf text
  (← Expression.evaluatePaying e (limits.level.restrict constants) limits).toStyle

theorem read_eq_ok_iff_of_evaluate {e : Expression} {value : Value} (he : expressionOf text = .ok e)
    (hstyle : value.toStyle = .ok style) {steps : Nat}
    (h : Expression.evaluate e [] (limits.level.restrict constants) limits =
      if steps ≤ limits.maxSteps then .ok value else .error .timedOut) :
    read text constants limits = .ok (.static style) ↔ steps ≤ limits.maxSteps := by
  rw [read_eq_of_expressionOf he]
  unfold evaluateStyle
  rw [h]
  split
  · rename_i hle
    refine iff_of_true ?_ hle
    change (value.toStyle.map _).mapError _ = _
    rw [hstyle]
    rfl
  · rename_i hle
    exact iff_of_false nofun hle

theorem readPaying_eq_ok_iff_of_evaluatePaying {e : Expression} {value : Value}
    (he : expressionOf text = .ok e) (hstyle : value.toStyle = .ok style) {cost : Nat}
    (h : Expression.evaluatePaying e (limits.level.restrict constants) limits =
      if cost ≤ limits.maxSteps then .ok value else .error .timedOut) :
    readPaying text constants limits = .ok style ↔ cost ≤ limits.maxSteps := by
  unfold readPaying
  rw [he]
  change (Expression.evaluatePaying e _ limits >>= _) = _ ↔ _
  rw [h]
  split
  · rename_i hle
    exact iff_of_true hstyle hle
  · rename_i hle
    exact iff_of_false nofun hle

/-- A static style takes so many steps, no more than the limit, and so many with a further step for
each item and entry of a value that has been kept and is copied.  It has fewer entries than the
latter, through all of its blocks, and the latter are fewer than two to the power of the former. -/
theorem size_bounded (h : read text constants limits = .ok (.static style)) :
    ∃ steps cost, steps ≤ limits.maxSteps ∧
      (∀ maxSteps, read text constants { limits with maxSteps } = .ok (.static style) ↔
        steps ≤ maxSteps) ∧
      (∀ maxSteps, readPaying text constants { limits with maxSteps } = .ok style ↔
        cost ≤ maxSteps) ∧
      style.size < cost ∧ cost < 2 ^ steps := by
  obtain ⟨e, value, he, hvalue, hstyle⟩ := exists_of_read_static h
  obtain ⟨steps, cost, hsteps, hcost, hsize, hpower⟩ := Expression.size_of_evaluate hvalue
  have hread : ∀ maxSteps, read text constants { limits with maxSteps } = .ok (.static style) ↔
      steps ≤ maxSteps :=
    fun maxSteps => read_eq_ok_iff_of_evaluate he hstyle (hsteps maxSteps)
  refine ⟨steps, cost, (hread limits.maxSteps).mp h, hread, ?_, ?_, hpower⟩
  · exact fun maxSteps => readPaying_eq_ok_iff_of_evaluatePaying he hstyle (hcost maxSteps)
  · rw [Value.size_toStyle hstyle]
    exact hsize

/-! ## A constant that is referred to twice -/

/-- How many entries a declaration has that is static. -/
def size? : Declaration → Option Nat
  | .static style => some style.size
  | .themed _ => none

theorem exists_static_of_size {n : Nat}
    (h : (read text constants limits).toOption.map size? = some (some n)) :
    ∃ style, read text constants limits = .ok (.static style) ∧ style.size = n := by
  obtain ⟨d, hread, hd⟩ := Running.exists_of_toOption h
  cases d with
  | static style => exact ⟨style, hread, Option.some.inj hd⟩
  | themed f => cases hd

/-- An object with three entries. -/
def triple : Constants :=
  [("a", .object (["x", "y", "z"].map fun key => .entry (.fixed key) (.string key)))]

/-- Seven steps make a style with eight entries, which take more steps with the copy paid for. -/
theorem size_bounded_copied :
    ∃ style, read "{p: a, q: a}" triple ⟨.moduleConstants, 1000, 7⟩ = .ok (.static style) ∧
      ∃ steps cost, steps ≤ 7 ∧ 8 < cost ∧ cost < 2 ^ steps ∧
        ∀ maxSteps, readPaying "{p: a, q: a}" triple ⟨.moduleConstants, 1000, maxSteps⟩ =
          .ok style ↔ cost ≤ maxSteps := by
  obtain ⟨style, hread, hsize⟩ : ∃ style,
      read "{p: a, q: a}" triple ⟨.moduleConstants, 1000, 7⟩ = .ok (.static style) ∧
        style.size = 8 :=
    exists_static_of_size (by decide +kernel)
  obtain ⟨steps, cost, hsteps, -, hcost, hless, hpower⟩ := size_bounded hread
  exact ⟨style, hread, steps, cost, hsteps, hsize ▸ hless, hpower, hcost⟩

/-- Seven steps make a style with eight entries. -/
theorem size_exceeds_budget :
    ∃ style, read "{p: a, q: a}" triple ⟨.moduleConstants, 1000, 7⟩ = .ok (.static style) ∧
      ¬ style.size ≤ 7 := by
  obtain ⟨style, hread, hsize⟩ : ∃ style,
      read "{p: a, q: a}" triple ⟨.moduleConstants, 1000, 7⟩ = .ok (.static style) ∧
        style.size = 8 :=
    exists_static_of_size (by decide +kernel)
  exact ⟨style, hread, by omega⟩

end StaticStyle.Declaration
