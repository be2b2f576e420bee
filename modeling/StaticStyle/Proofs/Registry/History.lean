import StaticStyle.Proofs.Ordered
import StaticStyle.Proofs.Registry.Growth

/-!
# What a registry is made of

A registry that is not cleared is made of the rules that have been added to it, each with
the file that it comes from.  `Registry.addEach` adds such a row of rules, and the lemmas
say what a registry holds after that: the styles and the dependencies of the row, in
order behind those that it held before, and for each class the last rule of the row
(`names_styles_addEach`, `style?_addEach`).

A row of rules makes of a registry what it makes of an empty one exactly if what the
registry holds is a front part of that (`styles_addEach_eq_iff`).
-/

namespace StaticStyle.Registry

variable {r r' : Registry} {rules : List ClassRule} {file className : String}
  {row : List (ClassRule × String)}

/-- Adds rules, each with the file that it comes from. -/
def addEach (row : List (ClassRule × String)) (r : Registry) : Registry :=
  row.foldl (fun r pair => r.add pair.1 pair.2) r

theorem addEach_append (row row' : List (ClassRule × String)) (r : Registry) :
    r.addEach (row ++ row') = (r.addEach row).addEach row' := by
  unfold addEach
  exact List.foldl_append

theorem addEach_concat (row : List (ClassRule × String)) (pair : ClassRule × String)
    (r : Registry) : r.addEach (row ++ [pair]) = (r.addEach row).add pair.1 pair.2 := by
  rw [addEach_append]
  rfl

/-- The rules of a file are a row in which the file does not change. -/
theorem addAll_eq_addEach (rules : List ClassRule) (file : String) (r : Registry) :
    r.addAll rules file = r.addEach (rules.map fun e => (e, file)) := by
  rw [addAll, addEach, List.foldl_map]

@[simp] theorem stale_addEach (row : List (ClassRule × String)) (r : Registry) :
    (r.addEach row).stale = r.stale := by
  induction row using List.reverseRecOn with
  | nil => rfl
  | append_singleton row pair ih =>
      rw [addEach_concat]
      exact ih

@[simp] theorem roots_addEach (row : List (ClassRule × String)) (r : Registry) :
    (r.addEach row).roots = r.roots := by
  induction row using List.reverseRecOn with
  | nil => rfl
  | append_singleton row pair ih =>
      rw [addEach_concat]
      exact ih

/-! ## The order of styles and dependencies -/

theorem names_styles_addEach (row : List (ClassRule × String)) (r : Registry) :
    (r.addEach row).styles.names =
      Roll.enrolAll (row.map fun pair => pair.1.className) r.styles.names := by
  induction row using List.reverseRecOn with
  | nil => rfl
  | append_singleton row pair ih =>
      rw [addEach_concat, List.map_append, List.map_singleton, Roll.enrolAll_concat, ← ih]
      exact Table.names_put _ _ _

theorem dependencies_addEach (row : List (ClassRule × String)) (r : Registry) :
    (r.addEach row).dependencies = Roll.enrolAll (row.map Prod.snd) r.dependencies := by
  induction row using List.reverseRecOn with
  | nil => rfl
  | append_singleton row pair ih =>
      rw [addEach_concat, List.map_append, List.map_singleton, Roll.enrolAll_concat, ← ih]
      rfl

theorem styles_addEach (row : List (ClassRule × String)) (r : Registry) :
    (r.addEach row).styles = r.styles.putAll (row.map fun pair => (pair.1.className, pair.1)) := by
  rw [Table.putAll, List.foldl_map]
  induction row using List.reverseRecOn with
  | nil => rfl
  | append_singleton row pair ih =>
      rw [addEach_concat, List.foldl_append, ← ih]
      rfl

theorem nodup_names_addEach (row : List (ClassRule × String)) (h : r.styles.names.Nodup) :
    (r.addEach row).styles.names.Nodup := by
  rw [names_styles_addEach]
  exact Roll.nodup_enrolAll _ h

/-- A row of rules makes of the styles and of the dependencies what it makes of each alone, and
leaves the rest. -/
theorem addEach_eq (row : List (ClassRule × String)) (r : Registry) :
    r.addEach row =
      { r with
        styles := r.styles.putAll (row.map fun pair => (pair.1.className, pair.1))
        dependencies := Roll.enrolAll (row.map Prod.snd) r.dependencies } := by
  rw [← styles_addEach, ← dependencies_addEach, ← roots_addEach row r, ← stale_addEach row r]

/-- A row that has been added can be added again, and nothing changes. -/
theorem addEach_addEach (row : List (ClassRule × String)) (r : Registry) :
    (r.addEach row).addEach row = r.addEach row := by
  rw [addEach_eq row (r.addEach row), styles_addEach, dependencies_addEach, Table.putAll_putAll,
    Roll.enrolAll_enrolAll, ← styles_addEach, ← dependencies_addEach]

theorem noteScan_addEach (row : List (ClassRule × String)) (r : Registry) :
    r.noteScan.addEach row = (r.addEach row).noteScan := by
  rw [addEach_eq, addEach_eq row r]
  rfl

/-! ## What stands under a class -/

theorem style?_add (e : ClassRule) (file : String) (r : Registry) (className : String) :
    (r.add e file).style? className =
      if e.className = className then some e else r.style? className :=
  Table.get?_put _ _ _ _

/-- Under a class stands what the row puts there, and what was there if the row puts nothing
there. -/
theorem style?_addEach (row : List (ClassRule × String)) (r : Registry) (className : String) :
    (r.addEach row).style? className =
      ((empty.addEach row).style? className).or (r.style? className) := by
  induction row using List.reverseRecOn with
  | nil => rfl
  | append_singleton row pair ih =>
      rw [addEach_concat, addEach_concat, style?_add, style?_add, ih]
      by_cases hclass : pair.1.className = className
      · rw [if_pos hclass, if_pos hclass, Option.some_or]
      · rw [if_neg hclass, if_neg hclass]

theorem style?_eq_none_iff : r.style? className = none ↔ className ∉ r.styles.names :=
  Table.get?_eq_none_iff

/-- What stands under a class after a row of rules was there or is one of the row. -/
theorem exists_of_style?_addEach {e : ClassRule}
    (h : (empty.addEach row).style? className = some e) : ∃ file, (e, file) ∈ row := by
  induction row using List.reverseRecOn with
  | nil => cases h
  | append_singleton row pair ih =>
      rw [addEach_concat, style?_add] at h
      split at h
      · obtain rfl := Option.some.inj h
        exact ⟨pair.2, List.mem_append_right _ (List.mem_singleton_self _)⟩
      · obtain ⟨file, hfile⟩ := ih h
        exact ⟨file, List.mem_append_left _ hfile⟩

/-! ## Rules in a row -/

theorem hasClass_addEach (row : List (ClassRule × String)) (r : Registry) (className : String) :
    (r.addEach row).hasClass className = true ↔
      r.hasClass className = true ∨ ∃ pair ∈ row, pair.1.className = className := by
  have hmem : ∀ r : Registry, r.hasClass className = true ↔ className ∈ r.styles.names :=
    fun r => (Table.mem_names className r.styles).symm
  rw [hmem, hmem, names_styles_addEach, Roll.mem_enrolAll, List.mem_map]

theorem mem_dependencies_addEach (row : List (ClassRule × String)) (r : Registry) :
    file ∈ (r.addEach row).dependencies ↔
      file ∈ r.dependencies ∨ ∃ e, (e, file) ∈ row := by
  rw [dependencies_addEach, Roll.mem_enrolAll, List.mem_map]
  constructor
  · rintro (h | ⟨pair, hpair, rfl⟩)
    · exact Or.inl h
    · exact Or.inr ⟨pair.1, hpair⟩
  · rintro (h | ⟨e, he⟩)
    · exact Or.inl h
    · exact Or.inr ⟨(e, file), he, rfl⟩

/-- The rules of a file make no other file a dependency. -/
theorem eq_of_mem_dependencies_addAll {path : String}
    (h : path ∈ (r.addAll rules file).dependencies) : path ∈ r.dependencies ∨ path = file := by
  rw [addAll_eq_addEach, mem_dependencies_addEach] at h
  refine h.imp id fun ⟨e, he⟩ => ?_
  obtain ⟨e', -, heq⟩ := List.mem_map.mp he
  exact (congrArg Prod.snd heq).symm

/-- A row that has the rules of a file is all that has to be added for the file. -/
theorem holds_addEach (hrow : ∀ e ∈ rules, (e, file) ∈ row) (r : Registry) :
    (r.addEach row).Holds rules file where
  hasClass := by
    intro e he
    exact (hasClass_addEach row r e.className).mpr (Or.inr ⟨(e, file), hrow e he, rfl⟩)
  isDependency := by
    intro hne
    obtain ⟨e, he⟩ := List.exists_mem_of_ne_nil rules hne
    exact (mem_dependencies_addEach row r).mpr (Or.inr ⟨e, hrow e he⟩)

/-! ## Rows on an empty registry -/

/-- A row makes of the styles of a registry what it makes of none exactly if its classes are a
front part of those of the row. -/
theorem styles_addEach_eq_iff (row : List (ClassRule × String)) (r : Registry) :
    (r.addEach row).styles = (empty.addEach row).styles ↔
      r.styles.names <+: (empty.addEach row).styles.names := by
  have hempty : (empty.addEach row).styles.names =
      Roll.enrolAll (row.map fun pair => pair.1.className) [] := names_styles_addEach row empty
  have hnames : (r.addEach row).styles.names = (empty.addEach row).styles.names ↔
      r.styles.names <+: (empty.addEach row).styles.names := by
    rw [names_styles_addEach, hempty]
    exact Roll.enrolAll_eq_iff
  constructor
  · intro h
    exact hnames.mp (by rw [h])
  · intro hfront
    have heq := hnames.mpr hfront
    have hnodup : (empty.addEach row).styles.names.Nodup := nodup_names_addEach row List.nodup_nil
    refine Table.ext_get? heq (heq ▸ hnodup) fun className => ?_
    change (r.addEach row).style? className = (empty.addEach row).style? className
    rw [style?_addEach]
    cases hnew : (empty.addEach row).style? className with
    | some e => rw [Option.some_or]
    | none =>
        -- A class that the row does not have is none of the front part.
        have hold : className ∉ r.styles.names :=
          fun hmem => style?_eq_none_iff.mp hnew (hfront.subset hmem)
        rw [Option.none_or, style?_eq_none_iff.mpr hold]

theorem dependencies_addEach_eq_iff (row : List (ClassRule × String)) (r : Registry) :
    (r.addEach row).dependencies = (empty.addEach row).dependencies ↔
      r.dependencies <+: (empty.addEach row).dependencies := by
  rw [dependencies_addEach, dependencies_addEach]
  exact Roll.enrolAll_eq_iff

end StaticStyle.Registry
