import Mathlib.Data.List.Induction
import Mathlib.Data.List.Nodup
import StaticStyle.Ordered

/-!
# Histories of ordered collections

What a roll or a table has become is told by the names and values that were added to it,
one after the other.  The names that a roll had stay in front, and those that are new
follow in the order in which they would stand on a roll of their own
(`Roll.enrolAll_eq_append`).

So adding names to a roll gives the roll of these names alone only if the roll had a
front part of it (`Roll.enrolAll_eq_iff`).

A second time the same names or entries make no difference (`Roll.enrolAll_enrolAll`,
`Table.putAll_putAll`): the names that are there keep their places, and the last entry of a
name decides both times.
-/

namespace StaticStyle

/-! ## Rolls -/

namespace Roll

variable {name : String} {names : List String} {roll : Roll}

theorem enrolAll_append (names names' : List String) (roll : Roll) :
    Roll.enrolAll (names ++ names') roll = Roll.enrolAll names' (Roll.enrolAll names roll) :=
  List.foldl_append

theorem enrolAll_concat (names : List String) (name : String) (roll : Roll) :
    Roll.enrolAll (names ++ [name]) roll = Roll.enrol name (Roll.enrolAll names roll) :=
  enrolAll_append names [name] roll

theorem mem_enrolAll (names : List String) (roll : Roll) :
    name ∈ Roll.enrolAll names roll ↔ name ∈ roll ∨ name ∈ names := by
  induction names using List.reverseRecOn with
  | nil =>
      rw [enrolAll, List.foldl_nil]
      simp
  | append_singleton names last ih =>
      rw [enrolAll_concat, mem_enrol, ih, List.mem_append, List.mem_singleton, or_assoc]

theorem nodup_enrolAll (names : List String) (h : roll.Nodup) :
    (Roll.enrolAll names roll).Nodup := by
  induction names using List.reverseRecOn with
  | nil => exact h
  | append_singleton names last ih =>
      rw [enrolAll_concat]
      exact nodup_enrol ih

/-- The names that a roll had come first, and then the new ones in their order. -/
theorem enrolAll_eq_append (names : List String) (roll : Roll) :
    Roll.enrolAll names roll = roll ++ (Roll.enrolAll names []).filter (· ∉ roll) := by
  induction names using List.reverseRecOn with
  | nil =>
      rw [enrolAll, enrolAll, List.foldl_nil, List.foldl_nil, List.filter_nil, List.append_nil]
  | append_singleton names last ih =>
      rw [enrolAll_concat, enrolAll_concat, ih]
      by_cases hroll : last ∈ roll
      · have hleft : last ∈ roll ++ (Roll.enrolAll names []).filter (· ∉ roll) :=
          List.mem_append_left _ hroll
        rw [enrol, if_pos hleft, enrol]
        split
        · rfl
        · rw [List.filter_append, List.filter_cons_of_neg (by simpa using hroll), List.filter_nil,
            List.append_nil]
      · by_cases hnames : last ∈ Roll.enrolAll names []
        · have hleft : last ∈ roll ++ (Roll.enrolAll names []).filter (· ∉ roll) :=
            List.mem_append_right _ (List.mem_filter.mpr ⟨hnames, by simpa using hroll⟩)
          rw [enrol, if_pos hleft, enrol, if_pos hnames]
        · have hleft : last ∉ roll ++ (Roll.enrolAll names []).filter (· ∉ roll) := by
            intro hmem
            rcases List.mem_append.mp hmem with hmem | hmem
            · exact hroll hmem
            · exact hnames (List.mem_filter.mp hmem).1
          rw [enrol, if_neg hleft, enrol, if_neg hnames, List.filter_append,
            List.filter_cons_of_pos (by simpa using hroll), List.filter_nil, List.append_assoc]

/-- Adding names to a roll makes no difference to the roll of the names alone exactly if the
roll is a front part of that. -/
theorem enrolAll_eq_iff :
    Roll.enrolAll names roll = Roll.enrolAll names [] ↔ roll <+: Roll.enrolAll names [] := by
  constructor
  · intro h
    rw [enrolAll_eq_append] at h
    exact ⟨_, h⟩
  · rintro ⟨rest, hrest⟩
    have hnodup : (roll ++ rest).Nodup := by
      rw [hrest]
      exact nodup_enrolAll names List.nodup_nil
    rw [enrolAll_eq_append, ← hrest, List.filter_append]
    have hfront : roll.filter (· ∉ roll) = [] := by
      rw [List.filter_eq_nil_iff]
      intro n hn
      simpa using hn
    have hback : rest.filter (· ∉ roll) = rest := by
      rw [List.filter_eq_self]
      intro n hn
      have hdisjoint := List.disjoint_of_nodup_append hnodup
      simpa using fun hroll => hdisjoint hroll hn
    rw [hfront, hback, List.nil_append]

/-- Adding the same names a second time changes nothing. -/
theorem enrolAll_enrolAll (names : List String) (roll : Roll) :
    Roll.enrolAll names (Roll.enrolAll names roll) = Roll.enrolAll names roll := by
  have hfilter : (Roll.enrolAll names []).filter (· ∉ Roll.enrolAll names roll) = [] := by
    rw [List.filter_eq_nil_iff]
    intro name hname
    have hnames : name ∈ names := by simpa using (mem_enrolAll names []).mp hname
    simpa using (mem_enrolAll names roll).mpr (Or.inr hnames)
  rw [enrolAll_eq_append names (Roll.enrolAll names roll), hfilter, List.append_nil]

/-- Leaving out what has come up before is adding a name to a roll. -/
theorem eraseDups_concat (names : List String) (name : String) :
    (names ++ [name]).eraseDups = Roll.enrol name names.eraseDups := by
  rw [List.eraseDups_append, enrol]
  by_cases hname : name ∈ names
  · rw [if_pos (List.mem_eraseDups.mpr hname)]
    simp [List.removeAll, hname]
  · rw [if_neg (fun h => hname (List.mem_eraseDups.mp h))]
    simp [List.removeAll, hname, List.eraseDups_cons]

theorem eraseDups_eq_nil_iff : names.eraseDups = [] ↔ names = [] := by
  cases names with
  | nil => simp
  | cons name names => simp [List.eraseDups_cons]

/-- The names on a roll of their own are the names without repetitions. -/
theorem enrolAll_nil (names : List String) : Roll.enrolAll names [] = names.eraseDups := by
  induction names using List.reverseRecOn with
  | nil => rfl
  | append_singleton names last ih => rw [enrolAll_concat, ih, eraseDups_concat]

end Roll

/-! ## Tables -/

namespace Table

variable {α : Type} {name : String} {table table' : Table α}

theorem get?_eq_none_iff : table.get? name = none ↔ name ∉ table.names := by
  rw [mem_names, has, Option.not_isSome_iff_eq_none]

/-- Setting a name to the value that it has changes nothing. -/
theorem put_of_get? {value : α} (h : table.get? name = some value) :
    table.put name value = table := by
  induction table with
  | nil => cases h
  | cons entry rest ih =>
      obtain ⟨n, v⟩ := entry
      unfold get? at h
      unfold put
      split at h
      · rename_i hn
        cases h
        rw [if_pos hn]
      · rename_i hn
        rw [if_neg hn, ih h]

/-- If no name has two entries, a look-up finds every entry. -/
theorem get?_of_mem {value : α} (hnodup : table.names.Nodup) (h : (name, value) ∈ table) :
    table.get? name = some value := by
  induction table with
  | nil => cases h
  | cons entry rest ih =>
      obtain ⟨n, v⟩ := entry
      obtain ⟨hnew, hnodup'⟩ := List.nodup_cons.mp hnodup
      rcases List.mem_cons.mp h with heq | hrest
      · cases heq
        simp [get?]
      · have hname : name ∈ Table.names rest := List.mem_map_of_mem hrest
        have hne : n ≠ name := by
          rintro rfl
          exact hnew hname
        simpa [get?, hne] using ih hnodup' hrest

/-- Removing a name that is not there changes nothing. -/
theorem erase_of_get? (h : table.get? name = none) : table.erase name = table := by
  refine List.filter_eq_self.mpr ?_
  intro entry hentry
  have habsent := get?_eq_none_iff.mp h
  refine decide_eq_true ?_
  rintro rfl
  exact habsent (List.mem_map_of_mem hentry)

/-- A table is told by its names in order and by the values under them. -/
theorem ext_get? (hnames : table.names = table'.names) (hnodup : table.names.Nodup)
    (hget : ∀ name, table.get? name = table'.get? name) : table = table' := by
  induction table generalizing table' with
  | nil =>
      cases table' with
      | nil => rfl
      | cons entry rest => cases hnames
  | cons entry rest ih =>
      cases table' with
      | nil => cases hnames
      | cons entry' rest' =>
          obtain ⟨n, v⟩ := entry
          obtain ⟨n', v'⟩ := entry'
          injection hnames with hn hrest
          dsimp only at hn
          subst hn
          change Table.names rest = Table.names rest' at hrest
          obtain ⟨hnew, hnodup'⟩ := List.nodup_cons.mp hnodup
          have hvalue : some v = some v' := by simpa [get?] using hget n
          rw [Option.some.inj hvalue]
          refine congrArg _ (ih hrest hnodup' fun m => ?_)
          by_cases hm : n = m
          · subst hm
            have h₁ : Table.get? n rest = none := get?_eq_none_iff.mpr hnew
            have h₂ : Table.get? n rest' = none := get?_eq_none_iff.mpr (hrest ▸ hnew)
            rw [h₁, h₂]
          · simpa [get?, hm] using hget m

/-- A table lists what a look-up finds under its names. -/
theorem filterMap_names (hnodup : table.names.Nodup) :
    (table.names.filterMap fun name => (table.get? name).map (Prod.mk name)) = table := by
  induction table with
  | nil => rfl
  | cons entry rest ih =>
      obtain ⟨n, v⟩ := entry
      obtain ⟨hnew, hnodup'⟩ := List.nodup_cons.mp hnodup
      have hself : Table.get? n ((n, v) :: rest) = some v := by simp [get?]
      have hrest : ∀ name ∈ Table.names rest,
          (Table.get? name ((n, v) :: rest)).map (Prod.mk name) =
            (Table.get? name rest).map (Prod.mk name) := by
        intro name hname
        have hne : n ≠ name := by
          rintro rfl
          exact hnew hname
        simp [get?, hne]
      change List.filterMap _ (n :: Table.names rest) = _
      rw [List.filterMap_cons_some (by rw [hself, Option.map_some]), List.filterMap_congr hrest,
        ih hnodup']

/-! ### Setting names again -/

/-- Sets names one after the other. -/
def putAll (entries : List (String × α)) (table : Table α) : Table α :=
  entries.foldl (fun table entry => table.put entry.1 entry.2) table

theorem putAll_concat (entries : List (String × α)) (entry : String × α) (table : Table α) :
    table.putAll (entries ++ [entry]) = (table.putAll entries).put entry.1 entry.2 :=
  List.foldl_append

theorem has_putAll (entries : List (String × α)) (table : Table α) :
    (table.putAll entries).has name = true ↔
      table.has name = true ∨ ∃ entry ∈ entries, entry.1 = name := by
  induction entries using List.reverseRecOn with
  | nil =>
      rw [putAll, List.foldl_nil]
      simp
  | append_singleton entries entry ih =>
      rw [putAll_concat, has_put, ih]
      constructor
      · rintro (hname | htable | ⟨other, hother, hname⟩)
        · exact Or.inr ⟨entry, by simp, hname⟩
        · exact Or.inl htable
        · exact Or.inr ⟨other, List.mem_append_left _ hother, hname⟩
      · rintro (htable | ⟨other, hother, hname⟩)
        · exact Or.inr (Or.inl htable)
        · rcases List.mem_append.mp hother with hother | hother
          · exact Or.inr (Or.inr ⟨other, hother, hname⟩)
          · exact Or.inl (List.mem_singleton.mp hother ▸ hname)

/-- Of two values of a name the later counts. -/
theorem put_put (name : String) (value value' : α) (table : Table α) :
    (table.put name value).put name value' = table.put name value' := by
  induction table with
  | nil => simp [put]
  | cons entry rest ih =>
      obtain ⟨n, v⟩ := entry
      by_cases hn : n = name
      · simp [put, hn]
      · simp [put, hn, ih]

/-- Two names can be set in either order if the one is there, so that it has its place. -/
theorem put_comm {other : String} (hne : name ≠ other) (hother : table.has other = true)
    (value value' : α) :
    (table.put name value).put other value' = (table.put other value').put name value := by
  induction table with
  | nil => cases hother
  | cons entry rest ih =>
      obtain ⟨n, v⟩ := entry
      by_cases hname : n = name
      · subst hname
        simp [put, hne]
      · by_cases hn : n = other
        · subst hn
          simp [put, hname]
        · have hrest : Table.has other rest = true := by simpa [has, get?, hn] using hother
          simp [put, hname, hn, ih hrest]

/-- A value that a name has for a while leaves no trace, if the names that are set meanwhile are
there already. -/
theorem putAll_put_put {entries : List (String × α)}
    (hthere : ∀ entry ∈ entries, table.has entry.1 = true) (name : String) (value value' : α) :
    ((table.put name value).putAll entries).put name value' =
      (table.putAll entries).put name value' := by
  induction entries generalizing table with
  | nil => exact put_put name value value' table
  | cons entry entries ih =>
      obtain ⟨hentry, hentries⟩ := List.forall_mem_cons.mp hthere
      change ((((table.put name value).put entry.1 entry.2)).putAll entries).put name value' =
        (((table.put entry.1 entry.2)).putAll entries).put name value'
      by_cases hname : name = entry.1
      · rw [hname, put_put]
      · rw [put_comm hname hentry]
        refine ih fun entry' hentry' => ?_
        exact (has_put _ _ _ _).mpr (Or.inr (hentries entry' hentry'))

/-- Setting the same names to the same values a second time changes nothing, also where they set
one name to several values. -/
theorem putAll_putAll (entries : List (String × α)) (table : Table α) :
    (table.putAll entries).putAll entries = table.putAll entries := by
  induction entries using List.reverseRecOn with
  | nil => rfl
  | append_singleton entries entry ih =>
      have hthere : ∀ other ∈ entries, (table.putAll entries).has other.1 = true :=
        fun other hother => (has_putAll entries table).mpr (Or.inr ⟨other, hother, rfl⟩)
      rw [putAll_concat, putAll_concat, putAll_put_put hthere, ih]

end Table

end StaticStyle
