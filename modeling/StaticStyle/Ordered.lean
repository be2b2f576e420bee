/-!
# Collections in order of first insertion

A table holds values under names, a roll holds names.  Both keep the order in
which their names were first inserted: setting a name that is there already
changes its value and not its place.

The main statements say what a look-up finds after an insertion (`get?_put`,
`mem_enrol`) and what becomes of the order (`names_put`).
-/

namespace StaticStyle

/-! ## Rolls -/

/-- Names in order, each once. -/
abbrev Roll := List String

/-- Adds a name at the end of a roll unless it is there. -/
def Roll.enrol (name : String) (roll : Roll) : Roll :=
  if name ∈ roll then roll else roll ++ [name]

/-- Adds names one after the other. -/
def Roll.enrolAll (names : List String) (roll : Roll) : Roll :=
  names.foldl (fun r n => r.enrol n) roll

/-- A roll holds what it held and the name that was added. -/
theorem Roll.mem_enrol {name other : String} {roll : Roll} :
    other ∈ roll.enrol name ↔ other ∈ roll ∨ other = name := by
  unfold Roll.enrol
  split
  · constructor
    · exact Or.inl
    · rintro (h | rfl) <;> assumption
  · simp

/-- A name that is added to a roll is on it. -/
theorem Roll.mem_enrol_self (name : String) (roll : Roll) : name ∈ roll.enrol name :=
  Roll.mem_enrol.mpr (Or.inr rfl)

/-- No name is on a roll twice. -/
theorem Roll.nodup_enrol {name : String} {roll : Roll} (h : roll.Nodup) :
    (roll.enrol name).Nodup := by
  unfold Roll.enrol
  split
  · exact h
  · rename_i hn
    rw [List.nodup_append]
    refine ⟨h, by simp, ?_⟩
    intro a ha b hb
    simp only [List.mem_singleton] at hb
    rintro rfl
    exact hn (hb ▸ ha)

/-! ## Tables -/

/-- Values under names, in order. -/
abbrev Table (α : Type) := List (String × α)

namespace Table

variable {α : Type}

/-- The value of the first entry with a name. -/
def get? (name : String) : Table α → Option α
  | [] => none
  | (n, v) :: rest => if n = name then some v else get? name rest

/-- Sets a name: the value of its entry if there is one, and a new entry at the
end otherwise. -/
def put (name : String) (value : α) : Table α → Table α
  | [] => [(name, value)]
  | (n, v) :: rest => if n = name then (n, value) :: rest else (n, v) :: put name value rest

/-- A table without the entries with a name. -/
def erase (name : String) (table : Table α) : Table α := table.filter fun entry => entry.1 ≠ name

/-- Whether a table has an entry with a name. -/
def has (name : String) (table : Table α) : Bool := (table.get? name).isSome

/-- The names of a table in order. -/
def names (table : Table α) : List String := table.map (·.1)

/-- Setting a name leaves the others alone. -/
theorem get?_put (name other : String) (value : α) (table : Table α) :
    (table.put name value).get? other = if name = other then some value else table.get? other := by
  induction table with
  | nil => simp [put, get?]
  | cons entry rest ih =>
      obtain ⟨n, v⟩ := entry
      by_cases hn : n = name
      · subst hn; by_cases ho : n = other <;> simp [put, get?, ho]
      · by_cases ho : n = other
        · subst ho; simp [put, get?, hn, Ne.symm hn]
        · simp [put, get?, hn, ho, ih]

/-- A table has the names it had and the one that was set. -/
theorem has_put (name other : String) (value : α) (table : Table α) :
    (table.put name value).has other = true ↔ name = other ∨ table.has other = true := by
  unfold has
  rw [get?_put]
  by_cases h : name = other
  · simp [h]
  · simp [h]

/-- What a look-up finds is an entry of the table. -/
theorem mem_of_get? {name : String} {value : α} {table : Table α}
    (h : table.get? name = some value) : (name, value) ∈ table := by
  induction table with
  | nil => cases h
  | cons entry rest ih =>
      obtain ⟨n, v⟩ := entry
      unfold get? at h
      split at h
      · rename_i hn
        cases h
        subst hn
        exact List.mem_cons_self
      · exact List.mem_cons_of_mem _ (ih h)

/-- The entries of a table after a name has been set. -/
theorem mem_put {name : String} {value : α} {table : Table α} {entry : String × α}
    (h : entry ∈ table.put name value) : entry = (name, value) ∨ entry ∈ table := by
  induction table with
  | nil => exact Or.inl (List.mem_singleton.mp h)
  | cons first rest ih =>
      obtain ⟨n, v⟩ := first
      unfold put at h
      split at h
      · rename_i hn
        subst hn
        rcases List.mem_cons.mp h with h | h
        · exact Or.inl h
        · exact Or.inr (List.mem_cons_of_mem _ h)
      · rcases List.mem_cons.mp h with h | h
        · exact Or.inr (h ▸ List.mem_cons_self)
        · exact (ih h).imp id (List.mem_cons_of_mem _)

/-- Removing a name leaves the others alone. -/
theorem get?_erase (name other : String) (table : Table α) :
    (table.erase name).get? other = if name = other then none else table.get? other := by
  induction table with
  | nil => simp [erase, get?]
  | cons entry rest ih =>
      obtain ⟨n, v⟩ := entry
      unfold erase at ih ⊢
      by_cases hn : n = name
      · subst hn
        by_cases ho : n = other
        · subst ho
          simpa using ih
        · simpa [get?, ho] using ih
      · by_cases ho : n = other
        · subst ho
          simp [get?, hn, Ne.symm hn]
        · simpa [get?, hn, ho] using ih

/-- A table has the names under which a look-up finds something. -/
theorem mem_names (name : String) (table : Table α) :
    name ∈ table.names ↔ table.has name = true := by
  induction table with
  | nil => simp [names, has, get?]
  | cons entry rest ih =>
      obtain ⟨n, v⟩ := entry
      unfold names has at ih ⊢
      by_cases hn : n = name
      · simp [get?, hn]
      · simpa [get?, hn, Ne.symm hn] using ih

/-- Setting a name puts it on the roll of names. -/
theorem names_put (name : String) (value : α) (table : Table α) :
    (table.put name value).names = Roll.enrol name table.names := by
  induction table with
  | nil => simp [put, names, Roll.enrol]
  | cons entry rest ih =>
      obtain ⟨n, v⟩ := entry
      by_cases hn : n = name
      · simp [put, names, Roll.enrol, hn]
      · simp only [names, Roll.enrol] at ih
        simp only [put, hn, if_false, names, Roll.enrol, List.map_cons, List.mem_cons,
          Ne.symm hn, false_or]
        rw [ih]
        by_cases hm : name ∈ List.map (fun x => x.1) rest <;> simp [hm]

end Table

end StaticStyle
