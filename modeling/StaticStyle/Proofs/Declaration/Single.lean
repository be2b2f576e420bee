import StaticStyle.Declaration.Basic
import StaticStyle.Proofs.Running
import StaticStyle.Proofs.Script.Rules
import StaticStyle.Proofs.Syntax.Gap
import StaticStyle.Proofs.Syntax.Parenthesis

/-!
# Texts of one expression

The text of an argument is read between parentheses.  A text that is an expression by itself is read
as this expression.  But a text may also close the parenthesis that has been put in front of it, and
open another one for the parenthesis behind it.  Then its parts may make one expression together,
although the text is none by itself (`Declaration.read_rejoined`).

Whatever is read is of one of these kinds, or has the parenthesis in front of it for that of the
parameters of an arrow function (`Declaration.single_of_read`).
-/

namespace StaticStyle.Declaration

open StaticStyle.Syntax StaticStyle.Syntax.Parser
open StaticStyle.Text (byteLength)
open StaticStyle.Expression (Limits)

variable {text : String} {constants : Constants} {limits : Limits} {d : Declaration}

/-! ## What stands in the parenthesis -/

/-- The depth of rules that is left in a parenthesis at the front of a module: the item, the
statement, the expression, its only part, the operand and what may be called come before it. -/
def depthInside (text : String) : Nat := Grammar.depthFor (wrap text).length - 6

/-- The context that a text is read in. -/
def context (text : String) : Context :=
  { language := ⟨true, true, false⟩, bound := (wrap text).length + 2 }

/-- The expression at the front of a text and the cursor behind it.  The text is followed by a
parenthesis. -/
def front (text : String) : Option (Tree × Cursor) :=
  Grammar.rules (depthInside text) .expression (context text)
    (Cursor.at 1 (text.toList ++ ['\n', ')']))

/-- The text is one expression: the parenthesis behind it follows, and nothing else. -/
def Single (text : String) (e : Tree) : Prop :=
  ∃ c, front text = some (e, c) ∧ c.token = .mark ")" ∧ c.after = []

/-- The text closes the parenthesis in front of it behind an expression, and goes on. -/
def Closes (text : String) : Prop :=
  ∃ e c, front text = some (e, c) ∧ c.token = .mark ")" ∧ c.after ≠ []

/-- The arrow function that starts with the parenthesis in front of a text, if there is one. -/
def arrow (text : String) : Option (Option Tree × Cursor) :=
  Grammar.arrowFunction (Grammar.rules (depthInside text + 2)) false (context text)
    (Cursor.at 0 (wrap text))

/-- The parenthesis in front of the text starts the parameters of an arrow function. -/
def Takes (text : String) : Prop := ∃ t c, arrow text = some (some t, c)

theorem depthFor_eq (text : String) :
    Grammar.depthFor (wrap text).length = depthInside text + 6 := by
  unfold depthInside Grammar.depthFor
  omega

theorem at_wrap (text : String) :
    (Cursor.at 0 (wrap text)).token = .mark "(" ∧
      (Cursor.at 0 (wrap text)).next = Cursor.at 1 (text.toList ++ ['\n', ')']) := by
  obtain ⟨newline, hat⟩ := Cursor.at_gap .nil (by decide : isLineBreak '(' = false) (by decide)
    (by decide) 0 (text.toList ++ ['\n', ')'])
  change Cursor.at 0 (wrap text) = _ at hat
  rw [hat]
  exact ⟨rfl, rfl⟩

/-! ## The items of the module -/

/-- An item, unless the text has ended. -/
def nextItem (text : String) : Parser (Option Tree) := do
  if (← token) == .endOfText then return none
  else return some (← Grammar.rules (depthInside text + 6) .item)

theorem parseModule_wrap (text : String) :
    parseModule ⟨true, true, false⟩ (wrap text) =
      (many (nextItem text) (context text) (Cursor.at 0 (wrap text))).bind fun r =>
        let t : Tree := .node .program ⟨0, byteLength (wrap text)⟩ (Grammar.markDirectives r.1)
        if hasLooseDefault t then none else some t := by
  unfold nextItem
  rw [← depthFor_eq]
  rfl

theorem nextItem_run_of_end {ctx : Context} {c : Cursor} (h : c.token = .endOfText) :
    nextItem text ctx c = some (none, c) := by
  unfold nextItem
  rw [bind_run_of_some (token_run ctx c), h]
  rfl

theorem nextItem_run_of_mark {ctx : Context} {c : Cursor} {m : String} (h : c.token = .mark m) :
    nextItem text ctx c =
      (Grammar.rules (depthInside text + 6) .item >>= fun t => pure (some t)) ctx c := by
  unfold nextItem
  rw [bind_run_of_some (token_run ctx c), h]
  rfl

/-- A text that is read starts with an arrow function, or with an expression behind which the
parenthesis is closed.  If the text ends there, it has been read as this expression. -/
theorem exists_of_items_run {r : List Tree × Cursor}
    (h : many (nextItem text) (context text) (Cursor.at 0 (wrap text)) = some r) :
    Takes text ∨ ∃ e c, front text = some (e, c) ∧ c.token = .mark ")" ∧
      (c.next.token = .endOfText → ∃ span span',
        r.1 = [.node .expressionStatement span [.node .parenthesized span' [e]]]) := by
  obtain ⟨hmark, hnext⟩ := at_wrap text
  obtain ⟨found, d, hfirst⟩ := exists_of_many_run h
  rw [nextItem_run_of_mark hmark] at hfirst
  obtain ⟨item, d₁, hitem, -⟩ := exists_of_bind_run hfirst
  obtain ⟨⟨t, d₂⟩, ht⟩ := exists_of_item_run hmark hitem
  change Grammar.rules (depthInside text + 4) .expression (context text) _ = _ at ht
  have hbound : 1 < (context text).bound := Nat.succ_lt_succ (Nat.succ_pos _)
  rcases exists_of_expression_run (Nat.lt_of_succ_lt hbound) hmark ht with harrow | harrow
  · exact Or.inl harrow
  · have hgoes := goesOn_parenthesized (Nat.lt_of_succ_lt hbound) hmark harrow
    obtain ⟨⟨t', d'⟩, ht'⟩ := hgoes.starts ht
    obtain ⟨e, c, hfront, hclose, rfl, rfl⟩ := exists_of_parenthesized_run hmark ht'
    rw [hnext] at hfront
    refine Or.inr ⟨e, c, hfront, hclose, fun hend => ?_⟩
    have hitem : Grammar.rules (depthInside text + 6) .item (context text) _ = some (_, c.next) :=
      item_run_of_end hmark (hgoes.ends ht' hend) hend
    rw [many_run_of_single hbound ((nextItem_run_of_mark hmark).trans (bind_run_of_some hitem _))
      (nextItem_run_of_end hend)] at h
    cases h
    exact ⟨_, _, rfl⟩

theorem token_next_of_after {c : Cursor} (h : c.after = []) : c.next.token = .endOfText := by
  unfold Cursor.next
  rw [h]
  rfl

/-- An expression in the parenthesis is what the text is parsed as. -/
theorem eq_of_parse {tree e : Tree} {span span' : Text.Span} {c : Cursor}
    (hitems : many (nextItem text) (context text) (Cursor.at 0 (wrap text)) =
      some ([.node .expressionStatement span [.node .parenthesized span' [e]]], c))
    (h : parse text = .ok tree) : tree = e.unwrap := by
  unfold parse at h
  rw [parseModule_wrap, hitems] at h
  dsimp only [Option.bind] at h
  split at h
  · cases h
  · rename_i program hprogram
    split at hprogram
    · cases hprogram
    · cases hprogram
      cases h
      rfl

/-- A text that is read is a single expression, and read as this expression, unless it closes the
parenthesis in front of it or takes it for the parameters of a function. -/
theorem single_of_read (h : read text constants limits = .ok d) :
    (∃ e, Single text e ∧ ofTree text e.unwrap constants limits = .ok d) ∨
      Closes text ∨ Takes text := by
  unfold read at h
  rw [mapError_eq_ok_iff] at h
  obtain ⟨tree, htree, h⟩ := bind_eq_ok_iff.mp h
  cases hitems : many (nextItem text) (context text) (Cursor.at 0 (wrap text)) with
  | none =>
      unfold parse at htree
      rw [parseModule_wrap, hitems] at htree
      cases htree
  | some r =>
      obtain ⟨ts, c'⟩ := r
      rcases exists_of_items_run hitems with htakes | ⟨e, c, hfront, hclose, hend⟩
      · exact Or.inr (Or.inr htakes)
      · by_cases hafter : c.after = []
        · obtain ⟨span, span', rfl⟩ := hend (token_next_of_after hafter)
          obtain rfl := eq_of_parse hitems htree
          exact Or.inl ⟨e, ⟨c, hfront, hclose, hafter⟩, h⟩
        · exact Or.inr (Or.inl ⟨e, c, hfront, hclose, hafter⟩)

/-! ## Texts that end in the parenthesis, and others -/

theorem not_closes (h : (front text).map (·.2.after.isEmpty) = some true) : ¬ Closes text := by
  rintro ⟨e, c, hfront, -, hafter⟩
  rw [hfront, Option.map_some, Option.some.injEq, List.isEmpty_iff] at h
  exact hafter h

theorem not_takes (h : (arrow text).map (·.1.isNone) = some true) : ¬ Takes text := by
  rintro ⟨t, c, htakes⟩
  rw [htakes] at h
  cases h

/-- A text that closes the parenthesis and goes on is no single expression. -/
theorem closes_of_front
    (h : (front text).map (fun r => (r.2.token, r.2.after.isEmpty)) = some (.mark ")", false)) :
    Closes text ∧ ∀ e, ¬ Single text e := by
  obtain ⟨⟨e, c⟩, hfront, hc⟩ := Option.map_eq_some_iff.mp h
  rw [Prod.mk.injEq, List.isEmpty_eq_false_iff] at hc
  refine ⟨⟨e, c, hfront, hc.1, hc.2⟩, ?_⟩
  rintro e' ⟨c', hfront', -, hafter⟩
  rw [hfront] at hfront'
  cases hfront'
  exact hc.2 hafter

/-- An object is a single expression. -/
theorem single_of_read_object :
    ∃ d, read "{margin: 0}" [] .default = .ok d ∧
      ∃ e, Single "{margin: 0}" e ∧ ofTree "{margin: 0}" e.unwrap [] .default = .ok d := by
  obtain ⟨d, hread, -⟩ : ∃ d, read "{margin: 0}" [] .default = .ok d ∧ d.isThemed = false :=
    Running.exists_of_toOption (by decide +kernel)
  refine ⟨d, hread, ?_⟩
  rcases single_of_read hread with hsingle | hcloses | htakes
  · exact hsingle
  · exact absurd hcloses (not_closes (by decide +kernel))
  · exact absurd htakes (not_takes (by decide +kernel))

/-- Two objects that the parentheses make one expression, and a function with a parameter that the
parenthesis is in front of, are read although they are no single expressions. -/
theorem read_rejoined :
    ∀ text ∈ ["{margin: 0}) || ({padding: 1}", "a) => ({margin: a}"],
      (∃ d, read text [] .default = .ok d) ∧ Closes text ∧ ∀ e, ¬ Single text e := by
  intro text htext
  rw [List.mem_cons, List.mem_singleton] at htext
  rcases htext with rfl | rfl
  · obtain ⟨d, hread, -⟩ : ∃ d, read "{margin: 0}) || ({padding: 1}" [] .default = .ok d ∧
        d.isThemed = false := Running.exists_of_toOption (by decide +kernel)
    exact ⟨⟨d, hread⟩, closes_of_front (by decide +kernel)⟩
  · obtain ⟨d, hread, -⟩ : ∃ d, read "a) => ({margin: a}" [] .default = .ok d ∧
        d.isThemed = true := Running.exists_of_toOption (by decide +kernel)
    exact ⟨⟨d, hread⟩, closes_of_front (by decide +kernel)⟩

end StaticStyle.Declaration
