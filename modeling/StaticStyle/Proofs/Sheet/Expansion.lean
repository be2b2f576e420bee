import Mathlib.Data.List.Infix
import StaticStyle.Registry
import StaticStyle.Sheet.Directive

/-!
# What is in an expanded stylesheet

A stylesheet with a directive has at least two parts, so the text that is put between
its parts is in the result (`contains_expand`).  The text of all rules has each rule
in it (`Registry.contains_rules`).
-/

namespace StaticStyle

/-- A list that is put together from some lists has each of them in it. -/
theorem contains_intercalate {α : Type} {sep x : List α} {xs : List (List α)} (h : x ∈ xs) :
    x <:+: sep.intercalate xs := by
  induction xs with
  | nil => cases h
  | cons first rest ih =>
      cases rest with
      | nil =>
          rw [List.mem_singleton.mp h, List.intercalate_singleton]
      | cons second rest =>
          rw [List.intercalate_cons_cons]
          rcases List.mem_cons.mp h with rfl | h
          · exact ⟨[], sep ++ sep.intercalate (second :: rest), by simp⟩
          · exact (ih h).trans (List.suffix_append _ _).isInfix

namespace Sheet

theorem parts_ne_nil (name s : List Char) : parts name s ≠ [] := by
  unfold parts
  split
  · exact List.cons_ne_nil _ _
  · split
    · exact List.cons_ne_nil _ _
    · split
      · exact List.cons_ne_nil _ _
      · exact List.cons_ne_nil _ _

/-- What is put in the place of directives is in the result if there is a directive. -/
theorem contains_expand {name s : List Char} (h : hasDirective name s = true)
    (styles : List Char) : styles <:+: expand name styles s := by
  unfold expand
  unfold hasDirective at h
  have hne := parts_ne_nil name s
  rcases hparts : parts name s with _ | ⟨first, _ | ⟨second, rest⟩⟩
  · exact absurd hparts hne
  · rw [hparts] at h
    cases h
  · rw [List.intercalate_cons_cons]
    exact ⟨first, styles.intercalate (second :: rest), rfl⟩

end Sheet

/-- The rule of every entry is in the text of all rules. -/
theorem Registry.contains_rules {r : Registry} {entry : String × ClassRule}
    (h : entry ∈ r.styles) : entry.2.render.toList <:+: r.rules.toList := by
  rw [rules, String.toList_intercalate, List.map_map]
  exact contains_intercalate (List.mem_map.mpr ⟨entry, h, rfl⟩)

end StaticStyle
