import StaticStyle.Proofs.Syntax.Placement.Modules

/-!
# Placement of whole modules

To every depth the rules of the grammar place what they read (`sound_rules`), so the tree of
a text is placed between the ends of the text (`placed_of_parseModule`), and each wrapper in it
stands where one may (`any_misplaced_of_parseModule`).
-/

namespace StaticStyle.Syntax

open StaticStyle.Syntax.Parser StaticStyle.Syntax.Grammar
open StaticStyle.Text (Continues byteLength)

variable {source : List Char} {self : Rules} {ts : List Tree}

/-- The bodies of the rules place what they read if the rules they refer to do. -/
theorem Sound.body (h : Sound source self) : Sound source (body self) where
  gives := h.gives.body
  expression := h.expressionRule
  assignment _ := h.assignmentRule
  unary := h.unaryRule
  callee := h.calleeRule
  leftHandSide := h.leftHandSideRule
  element := h.elementRule
  type := h.typeRule
  pattern := h.patternRule
  statement := h.statementRule
  item := h.itemRule

theorem sound_rules : ∀ depth, Sound source (rules depth)
  | 0 => {
      gives := givesExpressions_rules 0
      expression := fun _ => .failure
      assignment := fun _ _ => .failure
      unary := fun _ => .failure
      callee := fun _ => .failure
      leftHandSide := fun _ => .failure
      element := fun _ => .failure
      type := fun _ => .failure
      pattern := fun _ => .failure
      statement := fun _ => .failure
      item := fun _ => .failure }
  | depth + 1 => (sound_rules depth).body

theorem continues_of_dropInterpreter (text : List Char) :
    Continues text (dropInterpreter text).1 (dropInterpreter text).2 := by
  unfold dropInterpreter
  split
  · next tail => exact ⟨(('#' :: '!' :: tail).span _).1, (span_eq rfl).1.symm, rfl⟩
  · exact .zero text

theorem reads_items (h : Sound source self) : Reads source id (many do
    if (← token) == .endOfText then return none
    else return some (← self .item)) :=
  .many fun _ => .still fun _ => .ite (fun _ => .pure fun _ hc => hc) fun _ =>
    .reads h.item fun _ => .pure fun _ hc => hc

/-- The nodes of the tree of a text stand where the text says, each in its place. -/
theorem placed_of_parseModule {language : Language} {text : List Char} {program : Tree}
    (h : parseModule language text = some program) :
    program.Placed text 0 (byteLength text) := by
  obtain ⟨⟨ts, d⟩, hitems, hprogram⟩ := Option.bind_eq_some_iff.mp h
  have hstart : (Cursor.at (dropInterpreter text).1 (dropInterpreter text).2).In text :=
    .of_continues (continues_of_dropInterpreter text)
  have hbehind : Behind text 0 ts d :=
    reads_items (sound_rules _) 0 (.of_le hstart (Nat.zero_le _)) hitems
  have hlast : d.last ≤ byteLength text := by
    have hsum := hbehind.inSource.last.add_byteLength
    omega
  dsimp only at hprogram
  split at hprogram
  · cases hprogram
  · cases hprogram
    exact .node rfl (hbehind.placed.markDirectives.mono (Nat.le_refl 0) hlast) _

/-- In the tree of a text no node is misplaced. -/
theorem any_misplaced_of_parseModule {language : Language} {text : List Char} {program : Tree}
    (h : parseModule language text = some program) : program.any Tree.misplaced = false :=
  (placed_of_parseModule h).any_misplaced

end StaticStyle.Syntax
