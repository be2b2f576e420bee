import StaticStyle.Proofs.Style.Parts

/-!
# How deep values and styles nest

The levels of a value are those of the arrays and objects in it, and the levels of a style are
those of its blocks.  An object as a style keeps its levels (`Value.nesting_toStyle`), and no
operation makes a value that nests deeper than its operands (`Value.nesting_property`,
`Value.nesting_unary`, `Value.nesting_binary`).
-/

namespace StaticStyle

/-- How many levels of blocks a style has, itself among them. -/
def Style.nesting : Style → Nat
  | .nil => 1
  | .leaf _ _ rest => rest.nesting
  | .block _ inner rest => max (inner.nesting + 1) rest.nesting

namespace Value

mutual

/-- How many levels of arrays and objects a value has. -/
def nesting : Value → Nat
  | .array items => nestingOfItems items + 1
  | .object entries => nestingOfEntries entries + 1
  | _ => 0

/-- How many levels the deepest item of an array has. -/
def nestingOfItems : List Value → Nat
  | [] => 0
  | v :: rest => max v.nesting (nestingOfItems rest)

/-- How many levels the deepest entry of an object has. -/
def nestingOfEntries : List (String × Value) → Nat
  | [] => 0
  | (_, v) :: rest => max v.nesting (nestingOfEntries rest)

end

theorem nestingOfItems_le_iff {items : List Value} {n : Nat} :
    nestingOfItems items ≤ n ↔ ∀ v ∈ items, v.nesting ≤ n := by
  induction items with
  | nil => simp [nestingOfItems]
  | cons v rest ih => rw [nestingOfItems, Nat.max_le, ih, List.forall_mem_cons]

theorem nestingOfEntries_le_iff {entries : List (String × Value)} {n : Nat} :
    nestingOfEntries entries ≤ n ↔ ∀ entry ∈ entries, entry.2.nesting ≤ n := by
  induction entries with
  | nil => simp [nestingOfEntries]
  | cons entry rest ih =>
      obtain ⟨key, v⟩ := entry
      rw [nestingOfEntries, Nat.max_le, ih, List.forall_mem_cons]

theorem nesting_of_not_composite {v : Value} (h : v.isComposite = false) : v.nesting = 0 := by
  cases v with
  | array items => cases h
  | object entries => cases h
  | _ => rfl

/-! ## Operations -/

theorem nesting_unary (op : Expression.Prefix) (v : Value) : (v.unary op).nesting = 0 :=
  nesting_of_not_composite (isComposite_unary op v)

theorem nesting_binary (op : Expression.Infix) (a b : Value) : (a.binary op b).nesting = 0 :=
  nesting_of_not_composite (isComposite_binary op a b)

/-- A property of a value nests no deeper than the value. -/
theorem nesting_property {v w : Value} {key : String} (h : v.property key = .ok w) :
    w.nesting ≤ v.nesting := by
  rcases part_of_property h with hscalar | ⟨items, rfl, hmem⟩ | ⟨entries, name, rfl, hmem⟩
  · rw [nesting_of_not_composite hscalar]
    exact Nat.zero_le _
  · rw [nesting]
    exact Nat.le_succ_of_le (nestingOfItems_le_iff.mp (Nat.le_refl _) _ hmem)
  · rw [nesting]
    exact Nat.le_succ_of_le (nestingOfEntries_le_iff.mp (Nat.le_refl _) _ hmem)

/-! ## Styles -/

/-- The entries of an object nest one level less than the style that they make. -/
theorem Makes.nesting_eq {entries : List (String × Value)} {style : Style}
    (h : Makes entries style) : style.nesting = nestingOfEntries entries + 1 := by
  induction h with
  | nil => rfl
  | text _ ih =>
      rw [Style.nesting, ih, nestingOfEntries, nesting_of_not_composite rfl, Nat.zero_max]
  | number _ ih =>
      rw [Style.nesting, ih, nestingOfEntries, nesting_of_not_composite rfl, Nat.zero_max]
  | block _ _ ihInner ihRest =>
      rw [Style.nesting, ihInner, ihRest, nestingOfEntries, nesting, Nat.add_max_add_right]

/-- An object as a style has as many levels as before. -/
theorem nesting_toStyle {v : Value} {style : Style} (h : v.toStyle = .ok style) :
    style.nesting = v.nesting := by
  obtain ⟨entries, rfl, hmakes⟩ := makes_of_toStyle h
  rw [nesting, hmakes.nesting_eq]

mutual

theorem toEntry_ne_tooDeep {key : String} {rest : Except Malformation Style}
    (hrest : rest ≠ .error .tooDeep) : ∀ v : Value, toEntry key rest v ≠ .error .tooDeep
  | .string s, h => by
      rw [toEntry] at h
      cases rest with
      | error fault => exact hrest (congrArg _ (Except.error.inj h))
      | ok others => cases h
  | .number x, h => by
      rw [toEntry] at h
      cases rest with
      | error fault => exact hrest (congrArg _ (Except.error.inj h))
      | ok others => cases h
  | .object entries, h => by
      rw [toEntry] at h
      cases hinner : toEntries entries with
      | error fault =>
          rw [hinner] at h
          exact toEntries_ne_tooDeep entries (hinner.trans (congrArg _ (Except.error.inj h)))
      | ok inner =>
          rw [hinner] at h
          cases rest with
          | error fault => exact hrest (congrArg _ (Except.error.inj h))
          | ok others => cases h
  | .undefined, h => by cases h
  | .null, h => by cases h
  | .boolean b, h => by cases h
  | .array items, h => by cases h

theorem toEntries_ne_tooDeep :
    ∀ entries : List (String × Value), toEntries entries ≠ .error .tooDeep
  | [], h => by cases h
  | (key, v) :: rest, h => by
      rw [toEntries] at h
      exact toEntry_ne_tooDeep (toEntries_ne_tooDeep rest) v h

end

/-- A value is never too deep for a style. -/
theorem toStyle_ne_tooDeep (v : Value) : v.toStyle ≠ .error .tooDeep := by
  cases v with
  | object entries => exact toEntries_ne_tooDeep entries
  | _ => nofun

end Value

end StaticStyle
