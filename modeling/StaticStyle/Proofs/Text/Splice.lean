import Mathlib.Data.List.Perm.Basic
import StaticStyle.Text.Edit

/-!
# Splicing

`splice` has a result if every edit fits the source, that is, if the source can be cut
where the edit starts and where it ends (`exists_spliceFrom`).  What lies in front of
the first edit is left as it is (`spliceFrom_append`).
-/

namespace StaticStyle.Text

variable {source s a b k out : List Char} {r : Span} {e : Edit} {es : List Edit}

/-! ## Cutting -/

theorem byteLength_eq_zero (h : byteLength s = 0) : s = [] := by
  cases s with
  | nil => rfl
  | cons c s =>
      have hc := c.utf8Size_pos
      rw [byteLength_cons] at h
      omega

/-- Of two cuts of a text, the later one cuts what is behind the earlier one. -/
theorem exists_append_of_byteLength_le {a' b' : List Char} (h : a ++ b = a' ++ b')
    (hl : byteLength a ≤ byteLength a') : ∃ k, a' = a ++ k ∧ b = k ++ b' := by
  rcases List.append_eq_append_iff.mp h with ⟨k, ha, hb⟩ | ⟨k, ha, hb⟩
  · exact ⟨k, ha, hb⟩
  · rw [ha, byteLength_append] at hl
    have hk : k = [] := byteLength_eq_zero (by omega)
    subst hk
    rw [List.append_nil] at ha
    exact ⟨[], by rw [ha, List.append_nil], hb.symm⟩

theorem slice?_append (a s b : List Char) :
    slice? (a ++ (s ++ b)) ⟨byteLength a, byteLength a + byteLength s⟩ = some s := by
  unfold slice?
  rw [if_pos (Nat.le_add_right _ _), split?_append, Option.bind_some, Nat.add_sub_cancel_left]
  dsimp only
  rw [split?_append]
  rfl

theorem exists_of_slice? (h : slice? source r = some s) :
    ∃ a b, source = a ++ (s ++ b) ∧ byteLength a = r.start ∧
      byteLength a + byteLength s = r.stop := by
  unfold slice? at h
  split at h
  · next hle =>
      obtain ⟨⟨a, rest⟩, ha, h⟩ := Option.bind_eq_some_iff.mp h
      obtain ⟨⟨s', b⟩, hs, rfl⟩ := Option.map_eq_some_iff.mp h
      refine ⟨a, b, ?_, byteLength_of_split? ha, ?_⟩
      · rw [append_of_split? hs, append_of_split? ha]
      · rw [byteLength_of_split? ha, byteLength_of_split? hs]
        omega
  · cases h

/-- A cut behind a text is a cut of what follows it. -/
theorem split?_byteLength_add (k b : List Char) (n : Nat) :
    split? (byteLength k + n) (k ++ b) = (split? n b).map fun r => (k ++ r.1, r.2) := by
  induction k with
  | nil =>
      rw [byteLength_nil, Nat.zero_add, List.nil_append]
      exact Option.map_id'.symm
  | cons c k ih =>
      have hc := c.utf8Size_pos
      obtain ⟨m, hm⟩ : ∃ m, byteLength (c :: k) + n = m + 1 :=
        ⟨byteLength (c :: k) + n - 1, by rw [byteLength_cons]; omega⟩
      rw [hm, List.cons_append, split?]
      rw [byteLength_cons] at hm
      rw [if_pos (by omega), show m + 1 - c.utf8Size = byteLength k + n by omega, ih,
        Option.map_map]
      rfl

/-- A part that starts in front of a text and ends behind it starts with the text. -/
theorem slice?_append_left (a k b : List Char) {n : Nat} (h : byteLength (a ++ k) ≤ n) :
    slice? (a ++ (k ++ b)) ⟨byteLength a, n⟩ =
      (slice? (a ++ (k ++ b)) ⟨byteLength (a ++ k), n⟩).map (k ++ ·) := by
  have hfront : split? (byteLength (a ++ k)) (a ++ (k ++ b)) = some (a ++ k, b) := by
    rw [← List.append_assoc, split?_append]
  rw [byteLength_append] at h
  have hn : n - byteLength a = byteLength k + (n - byteLength (a ++ k)) := by
    rw [byteLength_append]
    omega
  unfold slice?
  dsimp only
  rw [if_pos (by omega), if_pos (by rw [byteLength_append]; omega), split?_append, hfront, hn,
    Option.bind_some, Option.bind_some]
  dsimp only
  rw [split?_byteLength_add, Option.map_map, Option.map_map]
  rfl

/-! ## One pass -/

/-- Edits that fit the source can be applied from any cut on. -/
theorem exists_spliceFrom (hs : source = a ++ b)
    (hf : ∀ e ∈ es, (slice? source e.span).isSome) :
    ∃ out, spliceFrom source (byteLength a) es = some out := by
  induction es generalizing a b with
  | nil =>
      refine ⟨b, ?_⟩
      rw [spliceFrom, hs, byteLength_append]
      have hslice := slice?_append a b []
      rwa [List.append_nil] at hslice
  | cons e es ih =>
      have hrest : ∀ e' ∈ es, (slice? source e'.span).isSome := fun e' he' =>
        hf e' (List.mem_cons_of_mem e he')
      rw [spliceFrom]
      split
      · exact ih hs hrest
      · next htake =>
          rw [Bool.or_eq_true, decide_eq_true_eq, decide_eq_true_eq, not_or, Nat.not_lt,
            Nat.not_lt] at htake
          obtain ⟨t, ht⟩ := Option.isSome_iff_exists.mp (hf e List.mem_cons_self)
          obtain ⟨a', b', hs', hstart, hstop⟩ := exists_of_slice? ht
          obtain ⟨kept, rfl, -⟩ := exists_append_of_byteLength_le (hs.symm.trans hs')
            (hstart ▸ htake.1)
          have hkept : slice? source ⟨byteLength a, e.span.start⟩ = some kept := by
            rw [hs', ← hstart, byteLength_append, List.append_assoc]
            exact slice?_append a kept (t ++ b')
          obtain ⟨out, hout⟩ := ih (a := (a ++ kept) ++ t) (b := b')
            (by rw [hs', List.append_assoc (a ++ kept)]) hrest
          rw [byteLength_append (a ++ kept), hstop] at hout
          refine ⟨kept ++ e.replacement ++ out, ?_⟩
          rw [hkept, hout]
          rfl

/-- What lies in front of every edit is left as it is. -/
theorem spliceFrom_append (hs : source = a ++ (k ++ b))
    (he : ∀ e ∈ es, byteLength (a ++ k) ≤ e.span.start) :
    spliceFrom source (byteLength a) es =
      (spliceFrom source (byteLength (a ++ k)) es).map (k ++ ·) := by
  have hle : byteLength a ≤ byteLength (a ++ k) := by
    rw [byteLength_append]
    omega
  induction es with
  | nil =>
      have hend : byteLength (a ++ k) ≤ byteLength source := by
        rw [hs, ← List.append_assoc, byteLength_append (a ++ k)]
        omega
      rw [spliceFrom, spliceFrom, hs]
      exact slice?_append_left a k b (hs ▸ hend)
  | cons e es ih =>
      have hstart := he e List.mem_cons_self
      have hrest := ih fun e' he' => he e' (List.mem_cons_of_mem e he')
      have hbehind : decide (e.span.start < byteLength a) = false :=
        decide_eq_false (by omega)
      have hbehind' : decide (e.span.start < byteLength (a ++ k)) = false :=
        decide_eq_false (by omega)
      have hkept : slice? source ⟨byteLength a, e.span.start⟩ =
          (slice? source ⟨byteLength (a ++ k), e.span.start⟩).map (k ++ ·) := by
        rw [hs]
        exact slice?_append_left a k b hstart
      rw [spliceFrom, spliceFrom, hbehind, hbehind', hrest, hkept]
      split
      · rfl
      · cases slice? source ⟨byteLength (a ++ k), e.span.start⟩ with
        | none => rfl
        | some kept =>
            cases spliceFrom source e.span.stop es with
            | none => rfl
            | some rest => exact congrArg some (by simp only [List.append_assoc])

/-! ## Order -/

theorem Span.before_iff {r r' : Span} :
    r.before r' = true ↔ r.start < r'.start ∨ r.start = r'.start ∧ r.stop ≤ r'.stop := by
  simp only [Span.before, Bool.or_eq_true, Bool.and_eq_true, decide_eq_true_eq, beq_iff_eq]

theorem before_trans (a b c : Edit) (hab : a.span.before b.span = true)
    (hbc : b.span.before c.span = true) : a.span.before c.span = true := by
  rw [Span.before_iff] at hab hbc ⊢
  omega

theorem before_total (a b : Edit) : (a.span.before b.span || b.span.before a.span) = true := by
  rw [Bool.or_eq_true, Span.before_iff, Span.before_iff]
  omega

theorem pairwise_mergeSort_before (es : List Edit) :
    (es.mergeSort fun a b => a.span.before b.span).Pairwise
      fun a b => a.span.before b.span = true :=
  List.pairwise_mergeSort before_trans before_total es

/-- An edit in front of all others is the first in order. -/
theorem exists_mergeSort_eq_cons (he : ∀ e' ∈ es, e.span.start < e'.span.start) :
    ∃ es', ((es ++ [e]).mergeSort fun a b => a.span.before b.span) = e :: es' ∧ es'.Perm es := by
  have hperm := List.mergeSort_perm (es ++ [e]) fun a b => a.span.before b.span
  have hsorted := pairwise_mergeSort_before (es ++ [e])
  generalize (es ++ [e]).mergeSort _ = l at hperm hsorted
  have hperm' : l.Perm (e :: es) := hperm.trans (List.perm_append_singleton e es)
  cases l with
  | nil => cases hperm'.nil_eq
  | cons first rest =>
      have hfirst : first = e := by
        rcases List.mem_cons.mp (hperm'.mem_iff.mp List.mem_cons_self) with h | h
        · exact h
        · -- Otherwise the edit comes later, although it starts before.
          rcases List.mem_cons.mp (hperm'.mem_iff.mpr List.mem_cons_self) with h' | h'
          · exact h'.symm
          · have hbefore := Span.before_iff.mp ((List.pairwise_cons.mp hsorted).1 e h')
            have hstart := he first h
            omega
      subst hfirst
      exact ⟨rest, rfl, List.Perm.cons_inv hperm'⟩

/-- A part that is taken out in front of all other edits takes nothing with it. -/
theorem splice_delete (hs : source = a ++ (s ++ (k ++ b))) (hne : s ++ k ≠ [])
    (hf : ∀ e ∈ es, (slice? source e.span).isSome)
    (he : ∀ e ∈ es, byteLength (a ++ (s ++ k)) ≤ e.span.start) :
    ∃ es' out, es'.Perm es ∧ spliceFrom source (byteLength (a ++ (s ++ k))) es' = some out ∧
      splice source (es ++ [.delete ⟨byteLength a, byteLength (a ++ s)⟩]) =
        some (a ++ (k ++ out)) := by
  have hpos : 0 < byteLength (s ++ k) := Nat.pos_of_ne_zero fun h => hne (byteLength_eq_zero h)
  have hfirst : ∀ e' ∈ es,
      (Edit.delete ⟨byteLength a, byteLength (a ++ s)⟩).span.start < e'.span.start := by
    intro e' he'
    have hle := he e' he'
    rw [byteLength_append] at hle
    change byteLength a < e'.span.start
    omega
  obtain ⟨es', hsort, hperm⟩ := exists_mergeSort_eq_cons hfirst
  have hs' : source = (a ++ s) ++ (k ++ b) := by rw [hs, List.append_assoc]
  have hs'' : source = (a ++ (s ++ k)) ++ b := by simp only [hs, List.append_assoc]
  obtain ⟨out, hout⟩ := exists_spliceFrom hs'' fun e' he' => hf e' (hperm.mem_iff.mp he')
  have hrest : spliceFrom source (byteLength (a ++ s)) es' = some (k ++ out) := by
    rw [spliceFrom_append hs' fun e' he' => ?_, List.append_assoc, hout]
    · rfl
    · rw [List.append_assoc]
      exact he e' (hperm.mem_iff.mp he')
  have hkept : slice? source ⟨0, byteLength a⟩ = some a := by
    have hslice := slice?_append [] a (s ++ (k ++ b))
    rwa [byteLength_nil, Nat.zero_add, List.nil_append, ← hs] at hslice
  have hfits : ¬ (decide (byteLength a < 0) ||
      decide (byteLength source < byteLength (a ++ s))) = true := by
    rw [Bool.or_eq_true, decide_eq_true_eq, decide_eq_true_eq, hs', byteLength_append (a ++ s)]
    omega
  refine ⟨es', out, hperm, hout, ?_⟩
  unfold splice
  rw [hsort, spliceFrom]
  refine (if_neg hfits).trans ?_
  change (slice? source ⟨0, byteLength a⟩ >>= _) = _
  rw [hkept]
  change (spliceFrom source (byteLength (a ++ s)) es' >>= _) = _
  rw [hrest]
  exact congrArg some (by rw [List.append_assoc]; rfl)

/-- A part that is taken out leaves what stands around it. -/
theorem splice_delete_part (a : List Char) (hs : s ≠ []) (b : List Char) :
    splice (a ++ (s ++ b)) [.delete ⟨byteLength a, byteLength (a ++ s)⟩] = some (a ++ b) := by
  have htext : a ++ (s ++ b) = a ++ (s ++ ([] ++ b)) := rfl
  have hne : s ++ [] ≠ [] := by rwa [List.append_nil]
  obtain ⟨es', out, hperm, hout, hsplice⟩ := splice_delete htext hne
    (List.forall_mem_nil _) (List.forall_mem_nil _)
  have hrest := slice?_append (a ++ s) b []
  rw [List.append_nil, List.append_assoc, ← byteLength_append, List.append_assoc] at hrest
  rw [hperm.eq_nil, List.append_nil, spliceFrom, hrest] at hout
  cases hout
  exact hsplice

end StaticStyle.Text
