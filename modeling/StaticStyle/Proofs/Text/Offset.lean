import StaticStyle.Proofs.Text.Splice
import StaticStyle.Text.Blank

/-!
# Offsets

An offset into a source falls between two of its characters if the source goes on with
some text there (`Continues`).  Two such offsets in order are the ends of a part of the
source (`Continues.slice?`).

The offsets up to the end of a source that fall between its characters are those that are
inside none of them (`uncut_iff`).
-/

namespace StaticStyle.Text

variable {source s t k : List Char} {m n : Nat} {r : Span}

/-- From an offset on a source goes on with a text. -/
def Continues (source : List Char) (n : Nat) (s : List Char) : Prop :=
  ∃ before, source = before ++ s ∧ byteLength before = n

namespace Continues

theorem zero (source : List Char) : Continues source 0 source := ⟨[], rfl, rfl⟩

theorem append (h : Continues source n (k ++ s)) : Continues source (n + byteLength k) s := by
  obtain ⟨before, rfl, rfl⟩ := h
  exact ⟨before ++ k, (List.append_assoc before k s).symm, byteLength_append before k⟩

theorem cons {c : Char} (h : Continues source n (c :: s)) : Continues source (n + c.utf8Size) s :=
  append (k := [c]) h

theorem add_byteLength (h : Continues source n s) : n + byteLength s = byteLength source := by
  obtain ⟨before, rfl, rfl⟩ := h
  exact (byteLength_append before s).symm

/-- Between two offsets stands a text. -/
theorem exists_append (h : Continues source n s) (h' : Continues source m t) (hle : n ≤ m) :
    ∃ k, s = k ++ t ∧ n + byteLength k = m := by
  obtain ⟨a, ha, rfl⟩ := h
  obtain ⟨a', ha', rfl⟩ := h'
  obtain ⟨k, rfl, hs⟩ := exists_append_of_byteLength_le (ha.symm.trans ha') hle
  exact ⟨k, hs, (byteLength_append a k).symm⟩

/-- A text ends in front of a character that is not in it. -/
theorem add_byteLength_le {c : Char} (h : Continues source n (k ++ t))
    (h' : Continues source m (c :: s)) (hle : n ≤ m) (hc : c ∉ k) : n + byteLength k ≤ m := by
  obtain ⟨k', htext, hm⟩ := h.exists_append h' hle
  rcases List.append_eq_append_iff.mp htext with ⟨a, rfl, -⟩ | ⟨a, rfl, ha⟩
  · rw [byteLength_append] at hm
    omega
  · cases a with
    | nil =>
        rw [List.append_nil]
        omega
    | cons d a =>
        obtain ⟨rfl, -⟩ := List.cons.inj ha
        exact absurd (List.mem_append_right k' List.mem_cons_self) hc

theorem slice? (h : Continues source n (s ++ t)) :
    slice? source ⟨n, n + byteLength s⟩ = some s := by
  obtain ⟨before, rfl, rfl⟩ := h
  exact slice?_append before s t

theorem isSome_slice? (h : Continues source n s) (h' : Continues source m t) (hle : n ≤ m) :
    (Text.slice? source ⟨n, m⟩).isSome := by
  obtain ⟨k, rfl, hk⟩ := h.exists_append h' hle
  have hslice := h.slice?
  rw [hk] at hslice
  exact Option.isSome_of_eq_some hslice

end Continues

/-- Of a part of a source, both ends fall between characters. -/
theorem continues_of_slice? (h : slice? source r = some s) :
    ∃ t, Continues source r.start (s ++ t) ∧ Continues source r.stop t ∧
      r.start + byteLength s = r.stop := by
  obtain ⟨a, b, hs, ha, hb⟩ := exists_of_slice? h
  have hstart : Continues source r.start (s ++ b) := ⟨a, hs, ha⟩
  have hsum : r.start + byteLength s = r.stop := by rw [← ha, hb]
  exact ⟨b, hstart, hsum ▸ hstart.append, hsum⟩

theorem start_le_stop_of_slice? (h : (slice? source r).isSome) : r.start ≤ r.stop := by
  obtain ⟨s, hs⟩ := Option.isSome_iff_exists.mp h
  obtain ⟨-, -, -, hsum⟩ := continues_of_slice? hs
  omega

/-! ## Characters -/

/-- No character of a source has an offset inside it.  The offset may be past the end of the
source. -/
def Uncut (source : List Char) (n : Nat) : Prop :=
  ∀ before c after, source = before ++ c :: after →
    n ≤ byteLength before ∨ byteLength before + c.utf8Size ≤ n

theorem Continues.uncut (h : Continues source n s) : Uncut source n := by
  obtain ⟨front, hsource, rfl⟩ := h
  intro before c after hc
  rcases List.append_eq_append_iff.mp (hsource.symm.trans hc) with ⟨k, rfl, -⟩ | ⟨k, rfl, hk⟩
  · simp
  · cases k with
    | nil => simp
    | cons d k =>
        obtain ⟨rfl, -⟩ := List.cons.inj hk
        simp only [byteLength_append, byteLength_cons]
        omega

/-- Behind the first character an offset is seen from there. -/
theorem Uncut.tail {c : Char} (h : Uncut (c :: s) n) : Uncut s (n - c.utf8Size) := by
  intro before d after hs
  have hcut := h (c :: before) d after (by rw [hs]; rfl)
  simp only [byteLength_cons] at hcut
  omega

theorem exists_continues (h : Uncut source n) (hn : n ≤ byteLength source) :
    ∃ s, Continues source n s := by
  induction source generalizing n with
  | nil =>
      obtain rfl : n = 0 := Nat.le_zero.mp hn
      exact ⟨[], .zero []⟩
  | cons c source ih =>
      rcases h [] c source rfl with hzero | hle
      · obtain rfl : n = 0 := Nat.le_zero.mp hzero
        exact ⟨c :: source, .zero _⟩
      · simp only [byteLength_nil, Nat.zero_add, byteLength_cons] at hle hn
        obtain ⟨s, before, rfl, hbefore⟩ := ih h.tail (by omega)
        exact ⟨s, c :: before, rfl, by simp only [byteLength_cons]; omega⟩

/-- An offset inside no character is past the end or falls between two characters. -/
theorem uncut_iff : Uncut source n ↔ byteLength source < n ∨ ∃ s, Continues source n s := by
  constructor
  · intro h
    exact (Nat.lt_or_ge (byteLength source) n).imp_right (exists_continues h)
  · rintro (hlt | ⟨s, hs⟩)
    · rintro before c after rfl
      simp only [byteLength_append, byteLength_cons] at hlt
      omega
    · exact hs.uncut

theorem exists_continues_iff : (∃ s, Continues source n s) ↔ (split? n source).isSome := by
  constructor
  · rintro ⟨s, before, rfl, rfl⟩
    rw [split?_append]
    rfl
  · intro h
    obtain ⟨⟨before, s⟩, hs⟩ := Option.isSome_iff_exists.mp h
    exact ⟨s, before, (append_of_split? hs).symm, byteLength_of_split? hs⟩

instance : Decidable (Uncut source n) :=
  decidable_of_iff (byteLength source < n ∨ (split? n source).isSome)
    (by rw [uncut_iff, exists_continues_iff])

/-- Where a character starts that is not blank. -/
def Solid (source : List Char) (n : Nat) : Prop :=
  ∃ c s, Continues source n (c :: s) ∧ isBlank c = false

end StaticStyle.Text
