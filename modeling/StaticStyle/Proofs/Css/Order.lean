import StaticStyle.Css.Sheet

/-!
# The order of rules

What may stand at a stage may also stand at an earlier one (`isOrdered_of_le`), so rules can be
taken out of a stylesheet.  Behind a rule only what may stand in the body follows, so rules can take
the place of others if what follows may follow rules (`isOrdered_replace`).
-/

namespace StaticStyle.Css

variable {stage s s' t t' : Stage} {mark : Mark} {marks front middle rules behind : List Mark}

/-! ## Stages -/

namespace Stage

theorem le_trans (h : s ≤ t) (h' : t ≤ t') : s ≤ t' := Nat.le_trans h h'

theorem opening_le (stage : Stage) : .opening ≤ stage := Nat.zero_le _

theorem le_body (stage : Stage) : stage ≤ .body := by cases stage <;> decide

theorem start_le (h : stage ≠ .opening) : .start ≤ stage := by
  cases stage with
  | opening => exact absurd rfl h
  | start | layers | imports | namespaces | body => decide

theorem eq_opening_of_le (h : stage ≤ .opening) : stage = .opening := by
  cases stage with
  | opening => rfl
  | start | layers | imports | namespaces | body => exact absurd h (by decide)

/-- The stage behind an item is not before the one in front of it. -/
theorem le_next? (h : stage.next? mark = some t) : stage ≤ t := by
  cases mark with
  | charset isString =>
      rw [next?] at h
      split at h
      · rename_i hopening
        exact hopening ▸ opening_le t
      · split at h
        · cases h
          exact Nat.le_refl _
        · cases h
  | layers =>
      rw [next?] at h
      cases h
      split
      · assumption
      · exact le_body stage
  | imports | namespaces =>
      rw [next?] at h
      split at h
      · cases h
        assumption
      · cases h
  | plain =>
      rw [next?] at h
      cases h
      split
      · rename_i hopening
        exact hopening ▸ opening_le _
      · exact Nat.le_refl _
  | rule =>
      cases h
      exact le_body stage

/-- An item that may stand at a stage may also stand at an earlier one, and leads to no later stage
there. -/
theorem exists_next?_of_le (h : s ≤ t) (ht : t.next? mark = some t') :
    ∃ s', s.next? mark = some s' ∧ s' ≤ t' := by
  cases mark with
  | charset isString =>
      rw [next?] at ht ⊢
      by_cases hs : s = .opening
      · refine ⟨.start, if_pos hs, ?_⟩
        split at ht
        · cases ht
          exact Nat.le_refl _
        · rename_i hopening
          split at ht
          · cases ht
            exact start_le hopening
          · cases ht
      · have hopening : t ≠ .opening := fun heq => hs (eq_opening_of_le (heq ▸ h))
        rw [if_neg hopening] at ht
        rw [if_neg hs]
        split at ht
        · rename_i hstring
          cases ht
          exact ⟨s, if_pos hstring, h⟩
        · cases ht
  | layers =>
      cases ht
      refine ⟨_, rfl, ?_⟩
      by_cases hlayers : t ≤ .layers
      · rw [if_pos hlayers, if_pos (le_trans h hlayers)]
        exact Nat.le_refl _
      · rw [if_neg hlayers]
        exact le_body _
  | imports | namespaces =>
      rw [next?] at ht ⊢
      split at ht
      · rename_i hreach
        cases ht
        exact ⟨_, if_pos (le_trans h hreach), Nat.le_refl _⟩
      · cases ht
  | plain =>
      cases ht
      refine ⟨_, rfl, ?_⟩
      by_cases hs : s = .opening
      · rw [if_pos hs]
        split
        · exact Nat.le_refl _
        · rename_i hopening
          exact start_le hopening
      · have hopening : t ≠ .opening := fun heq => hs (eq_opening_of_le (heq ▸ h))
        rw [if_neg hs, if_neg hopening]
        exact h
  | rule =>
      cases ht
      exact ⟨.body, rfl, Nat.le_refl _⟩

/-- Nothing leads out of the body. -/
theorem eq_body_of_next? (h : body.next? mark = some t) : t = .body := by
  cases mark with
  | charset isString => cases isString <;> cases h; rfl
  | layers | plain | rule =>
      cases h
      rfl
  | imports | namespaces => cases h

end Stage

/-! ## Rows of marks -/

/-- The stage behind a row of marks. -/
def stageBehind? (stage : Stage) (marks : List Mark) : Option Stage :=
  marks.foldlM Stage.next? stage

theorem stageBehind?_cons :
    stageBehind? stage (mark :: marks) = (stage.next? mark).bind fun s => stageBehind? s marks :=
  List.foldlM_cons

theorem stageBehind?_append :
    stageBehind? stage (front ++ behind) =
      (stageBehind? stage front).bind fun s => stageBehind? s behind :=
  List.foldlM_append

theorem isOrdered_append :
    isOrdered stage (front ++ behind) = true ↔
      ∃ s, stageBehind? stage front = some s ∧ isOrdered s behind = true := by
  rw [isOrdered, ← stageBehind?, stageBehind?_append, Option.isSome_bind, Option.any_eq_true]
  exact Iff.rfl

theorem isOrdered_cons :
    isOrdered stage (mark :: marks) = true ↔
      ∃ s, stage.next? mark = some s ∧ isOrdered s marks = true := by
  rw [isOrdered, ← stageBehind?, stageBehind?_cons, Option.isSome_bind, Option.any_eq_true]
  exact Iff.rfl

theorem isOrdered_left (h : isOrdered stage (front ++ behind) = true) :
    isOrdered stage front = true := by
  obtain ⟨s, hs, -⟩ := isOrdered_append.mp h
  exact Option.isSome_of_eq_some hs

theorem le_stageBehind? (h : stageBehind? s marks = some t) : s ≤ t := by
  induction marks generalizing s with
  | nil =>
      cases h
      exact Nat.le_refl _
  | cons mark marks ih =>
      rw [stageBehind?_cons] at h
      obtain ⟨s', hs', hrest⟩ := Option.bind_eq_some_iff.mp h
      exact Stage.le_trans (Stage.le_next? hs') (ih hrest)

/-- What may follow a stage may also follow an earlier one. -/
theorem isOrdered_of_le (h : s ≤ t) (ht : isOrdered t marks = true) : isOrdered s marks = true := by
  induction marks generalizing s t with
  | nil => rfl
  | cons mark marks ih =>
      obtain ⟨t', ht', hrest⟩ := isOrdered_cons.mp ht
      obtain ⟨s', hs', hle⟩ := Stage.exists_next?_of_le h ht'
      exact isOrdered_cons.mpr ⟨s', hs', ih hle hrest⟩

/-- Whether an item with a mark may follow rules. -/
def Mark.isLate (mark : Mark) : Bool := (Stage.body.next? mark).isSome

/-- Items may follow rules if each of them may. -/
theorem isOrdered_body_iff : isOrdered .body marks = true ↔ ∀ mark ∈ marks, mark.isLate = true := by
  induction marks with
  | nil => exact iff_of_true rfl fun _ h => absurd h List.not_mem_nil
  | cons mark marks ih =>
      rw [isOrdered_cons, List.forall_mem_cons, ← ih, Mark.isLate, Option.isSome_iff_exists]
      constructor
      · rintro ⟨s, hs, hrest⟩
        exact ⟨⟨s, hs⟩, Stage.eq_body_of_next? hs ▸ hrest⟩
      · rintro ⟨⟨s, hs⟩, hrest⟩
        exact ⟨s, hs, Stage.eq_body_of_next? hs ▸ hrest⟩

theorem stageBehind?_body (h : isOrdered .body marks = true) :
    stageBehind? .body marks = some .body := by
  induction marks with
  | nil => rfl
  | cons mark marks ih =>
      obtain ⟨s, hs, hrest⟩ := isOrdered_cons.mp h
      obtain rfl := Stage.eq_body_of_next? hs
      rw [stageBehind?_cons, hs]
      exact ih hrest

/-! ## Rules in the place of others -/

/-- A row starts with a rule, or is empty. -/
def StartsBody (marks : List Mark) : Prop := ∀ mark ∈ marks.head?, mark = .rule

/-- What follows a rule may follow rules. -/
theorem StartsBody.isLate (h : StartsBody marks) (hmarks : isOrdered stage marks = true) :
    ∀ mark ∈ marks, mark.isLate = true := by
  cases marks with
  | nil => exact fun _ hmem => absurd hmem List.not_mem_nil
  | cons mark marks =>
      obtain rfl := h mark rfl
      obtain ⟨s, hs, hrest⟩ := isOrdered_cons.mp hmarks
      cases hs
      exact List.forall_mem_cons.mpr ⟨rfl, isOrdered_body_iff.mp hrest⟩

/-- In the place of others in a row that is in order, rules stand in order if what follows may
follow rules. -/
theorem isOrdered_replace (hrules : isOrdered stage rules = true) (hstarts : StartsBody rules)
    (hbehind : rules = [] ∨ isOrdered .body behind = true)
    (h : isOrdered stage (front ++ (middle ++ behind)) = true) :
    isOrdered stage (front ++ (rules ++ behind)) = true := by
  obtain ⟨s, hs, hmiddle⟩ := isOrdered_append.mp h
  refine isOrdered_append.mpr ⟨s, hs, ?_⟩
  obtain ⟨t, ht, hrest⟩ := isOrdered_append.mp hmiddle
  cases rules with
  | nil => exact isOrdered_of_le (le_stageBehind? ht) hrest
  | cons mark rules =>
      obtain rfl := hstarts mark rfl
      have hbody : isOrdered .body rules = true := by
        obtain ⟨s', hs', hrules'⟩ := isOrdered_cons.mp hrules
        cases hs'
        exact hrules'
      rw [List.cons_append, isOrdered_cons]
      refine ⟨.body, rfl, isOrdered_append.mpr ⟨.body, stageBehind?_body hbody, ?_⟩⟩
      exact hbehind.resolve_left (List.cons_ne_nil _ _)

end StaticStyle.Css
