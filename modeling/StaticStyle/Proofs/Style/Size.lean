import Mathlib.Algebra.GroupWithZero.Nat
import Mathlib.Algebra.Order.BigOperators.Group.List
import Mathlib.Algebra.Order.Group.Nat
import StaticStyle.Proofs.Style.Parts

/-!
# How large values and styles are

The size of a value is the number of items and entries in it, and the size of a style that of its
declarations and blocks, both at all depths.  An object as a style keeps its size
(`Value.size_toStyle`).  An operator makes values without parts (`Value.size_unary`,
`Value.size_binary`), and a property is no larger than the value that it is read from
(`Value.size_property`).
-/

namespace StaticStyle

/-- The number of declarations and blocks of a style, those inside its blocks among them. -/
def Style.size : Style → Nat
  | .nil => 0
  | .leaf _ _ rest => rest.size + 1
  | .block _ inner rest => inner.size + rest.size + 1

namespace Value

mutual

/-- The number of items and entries in a value, those in its items and entries among them. -/
def size : Value → Nat
  | .array items => sizeOfItems items
  | .object entries => sizeOfEntries entries
  | _ => 0

/-- The number of items of an array with everything in them. -/
def sizeOfItems : List Value → Nat
  | [] => 0
  | v :: rest => v.size + 1 + sizeOfItems rest

/-- The number of entries of an object with everything in them. -/
def sizeOfEntries : List (String × Value) → Nat
  | [] => 0
  | (_, v) :: rest => v.size + 1 + sizeOfEntries rest

end

theorem sizeOfItems_eq_sum (items : List Value) :
    sizeOfItems items = (items.map (·.size + 1)).sum := by
  induction items with
  | nil => rfl
  | cons v rest ih => rw [sizeOfItems, ih, List.map_cons, List.sum_cons]

theorem sizeOfEntries_eq_sum (entries : List (String × Value)) :
    sizeOfEntries entries = (entries.map (·.2.size + 1)).sum := by
  induction entries with
  | nil => rfl
  | cons entry rest ih =>
      obtain ⟨key, v⟩ := entry
      rw [sizeOfEntries, ih, List.map_cons, List.sum_cons]

/-- The entries of several objects, one behind the other. -/
theorem sizeOfEntries_flatten (rows : List (List (String × Value))) :
    sizeOfEntries rows.flatten = (rows.map sizeOfEntries).sum := by
  induction rows with
  | nil => rfl
  | cons row rows ih =>
      rw [List.flatten_cons, List.map_cons, List.sum_cons, ← ih]
      simp only [sizeOfEntries_eq_sum, List.map_append, List.sum_append]

theorem size_le_sizeOfItems {items : List Value} {v : Value} (h : v ∈ items) :
    v.size ≤ sizeOfItems items := by
  rw [sizeOfItems_eq_sum]
  exact Nat.le_of_succ_le (List.le_sum_of_mem (List.mem_map_of_mem h))

theorem size_le_sizeOfEntries {entries : List (String × Value)} {entry : String × Value}
    (h : entry ∈ entries) : entry.2.size ≤ sizeOfEntries entries := by
  rw [sizeOfEntries_eq_sum]
  exact Nat.le_of_succ_le (List.le_sum_of_mem (List.mem_map_of_mem h))

theorem size_of_not_composite {v : Value} (h : v.isComposite = false) : v.size = 0 := by
  cases v with
  | array items => cases h
  | object entries => cases h
  | _ => rfl

/-! ## Operations -/

theorem size_unary (op : Expression.Prefix) (v : Value) : (v.unary op).size = 0 :=
  size_of_not_composite (isComposite_unary op v)

theorem size_binary (op : Expression.Infix) (a b : Value) : (a.binary op b).size = 0 :=
  size_of_not_composite (isComposite_binary op a b)

/-- A property of a value is no larger than the value. -/
theorem size_property {v w : Value} {key : String} (h : v.property key = .ok w) :
    w.size ≤ v.size := by
  rcases part_of_property h with hscalar | ⟨items, rfl, hmem⟩ | ⟨entries, name, rfl, hmem⟩
  · rw [size_of_not_composite hscalar]
    exact Nat.zero_le _
  · rw [size]
    exact size_le_sizeOfItems hmem
  · rw [size]
    exact size_le_sizeOfEntries hmem

/-! ## Styles -/

/-- The entries of an object make a style with as many. -/
theorem Makes.size_eq {entries : List (String × Value)} {style : Style}
    (h : Makes entries style) : style.size = sizeOfEntries entries := by
  induction h with
  | nil => rfl
  | text _ ih =>
      rw [Style.size, ih, sizeOfEntries, size_of_not_composite rfl, Nat.zero_add, Nat.add_comm]
  | number _ ih =>
      rw [Style.size, ih, sizeOfEntries, size_of_not_composite rfl, Nat.zero_add, Nat.add_comm]
  | block _ _ ihInner ihRest =>
      rw [Style.size, ihInner, ihRest, sizeOfEntries, size, Nat.add_right_comm]

/-- An object as a style has as many entries as before. -/
theorem size_toStyle {v : Value} {style : Style} (h : v.toStyle = .ok style) :
    style.size = v.size := by
  obtain ⟨entries, rfl, hmakes⟩ := makes_of_toStyle h
  rw [size, hmakes.size_eq]

end Value

end StaticStyle
