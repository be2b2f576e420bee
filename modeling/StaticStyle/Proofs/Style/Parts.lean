import StaticStyle.Expression.Value

/-!
# The parts of values

What is measured over the parts of a value depends on little: an operator gives a value without
parts (`Value.isComposite_unary`, `Value.isComposite_binary`), a property of a value has no parts or
is a part itself (`Value.part_of_property`), and the entries of an object that make a style are
texts, numbers and objects whose entries make a style (`Value.Makes`).
-/

namespace StaticStyle.Value

/-! ## Operations -/

theorem isComposite_unary (op : Expression.Prefix) (v : Value) :
    (v.unary op).isComposite = false := by
  cases op with
  | minus => rfl
  | plus => rfl
  | not => rfl
  | typeOf => rfl

theorem isComposite_binary (op : Expression.Infix) (a b : Value) :
    (a.binary op b).isComposite = false := by
  cases op with
  | add =>
      unfold Value.binary
      dsimp only
      split
      · rfl
      · rfl
  | _ => rfl

/-- A property without parts, an item of an array, or an entry of an object. -/
theorem part_of_property {v w : Value} {key : String} (h : v.property key = .ok w) :
    w.isComposite = false ∨ (∃ items, v = .array items ∧ w ∈ items) ∨
      ∃ entries name, v = .object entries ∧ (name, w) ∈ entries := by
  cases v with
  | undefined => cases h
  | null => cases h
  | boolean b =>
      cases h
      exact Or.inl rfl
  | number x =>
      cases h
      exact Or.inl rfl
  | string s =>
      unfold Value.property at h
      dsimp only at h
      split at h
      · cases h
        exact Or.inl rfl
      · cases h
        exact Or.inl rfl
  | object entries =>
      cases h
      cases hget : Table.get? key entries.reverse with
      | none => exact Or.inl rfl
      | some value =>
          have hmem := List.mem_reverse.mp (Table.mem_of_get? hget)
          exact Or.inr (Or.inr ⟨entries, key, rfl, hmem⟩)
  | array items =>
      unfold Value.property at h
      dsimp only at h
      split at h
      · cases h
        exact Or.inl rfl
      · cases h
        cases hitem : (position? key).bind fun i => items[i]? with
        | none => exact Or.inl rfl
        | some value =>
            obtain ⟨i, -, hi⟩ := Option.bind_eq_some_iff.mp hitem
            exact Or.inr (Or.inl ⟨items, rfl, List.mem_of_getElem? hi⟩)

/-! ## Styles -/

/-- The entries of an object make a style. -/
inductive Makes : List (String × Value) → Style → Prop where
  | nil : Makes [] .nil
  | text {key s : String} {rest : List (String × Value)} {others : Style} :
      Makes rest others → Makes ((key, .string s) :: rest) (.leaf key (.text s) others)
  | number {key : String} {x : Float} {rest : List (String × Value)} {others : Style} :
      Makes rest others → Makes ((key, .number x) :: rest) (.leaf key (.number x) others)
  | block {key : String} {entries rest : List (String × Value)} {inner others : Style} :
      Makes entries inner → Makes rest others →
      Makes ((key, .object entries) :: rest) (.block key inner others)

mutual

theorem makes_of_toEntry {key : String} {rest : List (String × Value)} {style : Style}
    (hrest : ∀ others, toEntries rest = .ok others → Makes rest others) :
    ∀ v : Value, toEntry key (toEntries rest) v = .ok style → Makes ((key, v) :: rest) style
  | .string s, h => by
      rw [toEntry] at h
      cases hothers : toEntries rest with
      | error fault => rw [hothers] at h; cases h
      | ok others =>
          rw [hothers] at h
          cases h
          exact .text (hrest others hothers)
  | .number x, h => by
      rw [toEntry] at h
      cases hothers : toEntries rest with
      | error fault => rw [hothers] at h; cases h
      | ok others =>
          rw [hothers] at h
          cases h
          exact .number (hrest others hothers)
  | .object entries, h => by
      rw [toEntry] at h
      cases hinner : toEntries entries with
      | error fault => rw [hinner] at h; cases h
      | ok inner =>
          rw [hinner] at h
          cases hothers : toEntries rest with
          | error fault => rw [hothers] at h; cases h
          | ok others =>
              rw [hothers] at h
              cases h
              exact .block (makes_of_toEntries entries hinner) (hrest others hothers)
  | .undefined, h => by cases h
  | .null, h => by cases h
  | .boolean b, h => by cases h
  | .array items, h => by cases h

theorem makes_of_toEntries {style : Style} :
    ∀ entries : List (String × Value), toEntries entries = .ok style → Makes entries style
  | [], h => by
      cases h
      exact .nil
  | (key, v) :: rest, h => by
      rw [toEntries] at h
      exact makes_of_toEntry (fun _ => makes_of_toEntries rest) v h

end

/-- Only the entries of an object make a style. -/
theorem makes_of_toStyle {v : Value} {style : Style} (h : v.toStyle = .ok style) :
    ∃ entries, v = .object entries ∧ Makes entries style := by
  cases v with
  | object entries => exact ⟨entries, rfl, makes_of_toEntries entries h⟩
  | _ => cases h

end StaticStyle.Value
