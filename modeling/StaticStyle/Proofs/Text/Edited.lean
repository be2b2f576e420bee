import Mathlib.Data.List.Pairwise
import StaticStyle.Proofs.Text.Offset

/-!
# Edited texts

`Edited` says what it means to edit a text, without saying how it is done: what stands in
front of an edit is kept, what the edit covers gives way to its replacement, and so on
behind it.  One pass over edits that fit the source edits it in this sense, with the edits
that are `Taken` (`exists_taken`).  `splice` passes no edit over if no two of the edits
overlap (`splice_of_apart`).
-/

namespace StaticStyle.Text

variable {source s out : List Char} {n : Nat} {a b : Span} {e : Edit} {es : List Edit}

/-- A text that starts at an offset, with edits applied in order. -/
inductive Edited : Nat → List Char → List Edit → List Char → Prop where
  | done {n : Nat} {s : List Char} : Edited n s [] s
  | edit {n : Nat} {kept taken replacement s out : List Char} {es : List Edit} :
      Edited (n + byteLength kept + byteLength taken) s es out →
      Edited n (kept ++ (taken ++ s))
        (⟨⟨n + byteLength kept, n + byteLength kept + byteLength taken⟩, replacement⟩ :: es)
        (kept ++ (replacement ++ out))

/-- No two spans overlap. -/
def Apart (a b : Span) : Prop := a.stop ≤ b.start ∨ b.stop ≤ a.start

theorem Apart.symm (h : Apart a b) : Apart b a := Or.symm h

/-! ## One pass -/

/-- Which edits of a list are taken, from an offset on.  An edit that starts in front of the
offset or that ends outside the source is passed over; any other is taken, and the offset
moves to its end. -/
inductive Taken (length : Nat) : Nat → List Edit → List Edit → Prop where
  | done {n : Nat} : Taken length n [] []
  | take {n : Nat} {e : Edit} {es taken : List Edit} :
      n ≤ e.span.start → e.span.stop ≤ length → Taken length e.span.stop es taken →
      Taken length n (e :: es) (e :: taken)
  | pass {n : Nat} {e : Edit} {es taken : List Edit} :
      ¬ (n ≤ e.span.start ∧ e.span.stop ≤ length) → Taken length n es taken →
      Taken length n (e :: es) taken

/-- Edits in order that do not overlap are all taken. -/
theorem Taken.eq_self {length : Nat} {taken : List Edit} (h : Taken length n es taken)
    (hn : ∀ e ∈ es, n ≤ e.span.start) (hl : ∀ e ∈ es, e.span.stop ≤ length)
    (hp : es.Pairwise fun e e' => e.span.stop ≤ e'.span.start) : taken = es := by
  induction h with
  | done => rfl
  | take _ _ _ ih =>
      obtain ⟨hbehind, hp⟩ := List.pairwise_cons.mp hp
      rw [ih hbehind (fun e he => hl e (List.mem_cons_of_mem _ he)) hp]
  | pass hnot _ _ => exact absurd ⟨hn _ List.mem_cons_self, hl _ List.mem_cons_self⟩ hnot

theorem spliceFrom_pass (h : ¬ (n ≤ e.span.start ∧ e.span.stop ≤ byteLength source)) :
    spliceFrom source n (e :: es) = spliceFrom source n es := by
  have hpass : (decide (e.span.start < n) || decide (byteLength source < e.span.stop)) = true := by
    simp only [Bool.or_eq_true, decide_eq_true_eq]
    omega
  rw [spliceFrom, if_pos hpass]

/-- One pass takes edits that fit the source and applies them. -/
theorem exists_taken (hs : Continues source n s)
    (hf : ∀ e ∈ es, e.span.stop ≤ byteLength source → (slice? source e.span).isSome) :
    ∃ taken out, Taken (byteLength source) n es taken ∧ Edited n s taken out ∧
      spliceFrom source n es = some out := by
  induction es generalizing n s with
  | nil =>
      refine ⟨[], s, .done, .done, ?_⟩
      have hslice := Continues.slice? (s := s) (t := []) ((List.append_nil s).symm ▸ hs)
      rwa [spliceFrom, ← hs.add_byteLength]
  | cons e es ih =>
      have hf' : ∀ e' ∈ es, e'.span.stop ≤ byteLength source → (slice? source e'.span).isSome :=
        fun e' he' => hf e' (List.mem_cons_of_mem e he')
      by_cases htake : n ≤ e.span.start ∧ e.span.stop ≤ byteLength source
      · obtain ⟨hn, hend⟩ := htake
        obtain ⟨part, hpart⟩ := Option.isSome_iff_exists.mp (hf e List.mem_cons_self hend)
        obtain ⟨⟨start, stop⟩, replacement⟩ := e
        obtain ⟨t, hstart, hstop, hsum⟩ := continues_of_slice? hpart
        obtain ⟨kept, rfl, hkept⟩ := hs.exists_append hstart hn
        dsimp only at hkept hstop hsum hend
        subst hkept hsum
        obtain ⟨taken, out, htaken, hout, hrest⟩ := ih hstop hf'
        refine ⟨_, kept ++ (replacement ++ out), .take hn hend htaken, .edit hout, ?_⟩
        have hfits : ¬ (decide (n + byteLength kept < n) ||
            decide (byteLength source < n + byteLength kept + byteLength part)) = true := by
          simp only [Bool.or_eq_true, decide_eq_true_eq]
          omega
        rw [spliceFrom, if_neg hfits, hs.slice?]
        change (spliceFrom source _ es >>= _) = _
        rw [hrest]
        exact congrArg some (List.append_assoc kept replacement out)
      · obtain ⟨taken, out, htaken, hout, hrest⟩ := ih hs hf'
        exact ⟨taken, out, .pass htake htaken, hout, (spliceFrom_pass htake).trans hrest⟩

/-- Edits in order that do not overlap are all applied. -/
theorem exists_edited (hs : Continues source n s) (hf : ∀ e ∈ es, (slice? source e.span).isSome)
    (hn : ∀ e ∈ es, n ≤ e.span.start)
    (hp : es.Pairwise fun e e' => e.span.stop ≤ e'.span.start) :
    ∃ out, Edited n s es out ∧ spliceFrom source n es = some out := by
  obtain ⟨taken, out, htaken, hout, hsplice⟩ := exists_taken hs fun e he _ => hf e he
  have hl : ∀ e ∈ es, e.span.stop ≤ byteLength source := by
    intro e he
    obtain ⟨part, hpart⟩ := Option.isSome_iff_exists.mp (hf e he)
    obtain ⟨t, -, hstop, -⟩ := continues_of_slice? hpart
    have hend := hstop.add_byteLength
    omega
  rw [htaken.eq_self hn hl hp] at hout
  exact ⟨out, hout, hsplice⟩

/-! ## Edits that change nothing -/

/-- A text in front of all edits is kept. -/
theorem Edited.exists_append {k t : List Char} (h : Edited n (k ++ t) es out)
    (hn : ∀ e ∈ es, n + byteLength k ≤ e.span.start) :
    ∃ out', out = k ++ out' ∧ Edited (n + byteLength k) t es out' := by
  generalize hs : k ++ t = s at h
  cases h with
  | done => exact ⟨t, hs.symm, .done⟩
  | @edit _ kept taken replacement s out es h =>
      have hle := hn _ List.mem_cons_self
      obtain ⟨kept', rfl, rfl⟩ := exists_append_of_byteLength_le hs (by dsimp only at hle; omega)
      refine ⟨kept' ++ (replacement ++ out), List.append_assoc k kept' _, ?_⟩
      rw [byteLength_append, ← Nat.add_assoc] at h ⊢
      exact .edit h

/-- An edit that puts a text in its own place makes no difference. -/
theorem Edited.cons_of_slice? {replacement : List Char} {r : Span} (h : Edited n s es out)
    (hs : Continues source n s) (hslice : slice? source r = some replacement) (hn : n ≤ r.start)
    (hes : ∀ e ∈ es, r.stop ≤ e.span.start) : Edited n s (⟨r, replacement⟩ :: es) out := by
  obtain ⟨start, stop⟩ := r
  obtain ⟨t, hstart, hstop, hsum⟩ := continues_of_slice? hslice
  obtain ⟨kept, rfl, hkept⟩ := hs.exists_append hstart hn
  dsimp only at hkept hsum hes
  subst hkept hsum
  obtain ⟨out₁, rfl, hkeep⟩ :=
    h.exists_append fun e he => Nat.le_trans (Nat.le_add_right _ _) (hes e he)
  obtain ⟨out₂, rfl, hrest⟩ := hkeep.exists_append hes
  exact .edit hrest

/-! ## Order -/

/-- Of two edits in order that do not overlap, the second stands behind the first. -/
theorem stop_le_of_before (hb : b.start ≤ b.stop) (h : Apart a b)
    (hab : a.before b = true) : a.stop ≤ b.start := by
  rw [Span.before_iff] at hab
  rcases h with h | h
  · exact h
  · omega

/-- Edits that fit the source and do not overlap are all applied. -/
theorem splice_of_apart (hf : ∀ e ∈ es, (slice? source e.span).isSome)
    (hp : es.Pairwise fun e e' => Apart e.span e'.span) :
    ∃ sorted out, sorted.Perm es ∧ (sorted.Pairwise fun e e' => e.span.stop ≤ e'.span.start) ∧
      Edited 0 source sorted out ∧ splice source es = some out := by
  have hperm := List.mergeSort_perm es fun a b => a.span.before b.span
  have hbefore := pairwise_mergeSort_before es
  unfold splice
  generalize (es.mergeSort fun a b => a.span.before b.span) = sorted at hperm hbefore ⊢
  have hfits : ∀ e ∈ sorted, (slice? source e.span).isSome := fun e he =>
    hf e (hperm.mem_iff.mp he)
  have happart := (hperm.pairwise_iff fun h => Apart.symm h).mpr hp
  have hsorted : sorted.Pairwise fun e e' => e.span.stop ≤ e'.span.start := by
    refine (hbefore.and happart).imp_of_mem fun _ he' h => ?_
    exact stop_le_of_before (start_le_stop_of_slice? (hfits _ he')) h.2 h.1
  obtain ⟨out, hout, hsplice⟩ :=
    exists_edited (.zero source) hfits (fun _ _ => Nat.zero_le _) hsorted
  exact ⟨sorted, out, hperm, hsorted, hout, hsplice⟩

/-- Edits that are in order already are applied in this order. -/
theorem splice_of_sorted (hf : ∀ e ∈ es, (slice? source e.span).isSome)
    (hp : es.Pairwise fun e e' => e.span.stop ≤ e'.span.start)
    (hne : ∀ e ∈ es, e.span.start < e.span.stop) :
    ∃ out, Edited 0 source es out ∧ splice source es = some out := by
  have hsorted : es.Pairwise fun a b => a.span.before b.span = true := by
    refine hp.imp_of_mem fun he _ h => ?_
    have hlt := hne _ he
    rw [Span.before_iff]
    omega
  obtain ⟨out, hout, hsplice⟩ := exists_edited (.zero source) hf (fun _ _ => Nat.zero_le _) hp
  refine ⟨out, hout, ?_⟩
  rwa [splice, List.mergeSort_of_pairwise hsorted]

end StaticStyle.Text
