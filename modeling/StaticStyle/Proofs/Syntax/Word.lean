import Mathlib.Tactic.IntervalCases
import StaticStyle.Proofs.Syntax.Gap

/-!
# Words and marks at the front of a text

The scanner takes the longest word off the front of a text, so a word is taken as it
stands if no letter follows it (`scanToken_word`).  White space ends a word, and so
does any other gap (`Gap.endsWord`).
-/

namespace StaticStyle.Syntax

open StaticStyle.Text (byteLength)

variable {c : Char} {w s g : List Char}

/-- A text that does not go on with the letters of a word. -/
def EndsWord (s : List Char) : Prop := ∀ c t, s = c :: t → isIdPart c = false ∧ c ≠ '\\'

/-- A word without escapes. -/
structure IsWord (w : List Char) : Prop where
  letters : ∀ c ∈ w, isIdPart c = true
  starts : ∃ c t, w = c :: t ∧ isIdStart c = true

theorem endsWord_cons (h : isIdPart c = false) (hc : c ≠ '\\') (s : List Char) :
    EndsWord (c :: s) := by
  rintro _ _ ⟨⟩
  exact ⟨h, hc⟩

/-! ## Letters -/

theorem ne_backslash (h : isIdPart c = true) : c ≠ '\\' := by
  rintro rfl
  exact absurd h (by decide)

theorem isIdPart_of_isIdStart (h : isIdStart c = true) : isIdPart c = true := by
  rw [isIdPart, h, Bool.true_or, Bool.true_or]

theorem isIdStart_of_isDigit (h : c.isDigit = true) : isIdStart c = false := by
  obtain ⟨hlow, hhigh⟩ := Char.isDigit_iff_toNat.mp h
  have hdigits : ∀ n, 48 ≤ n → n ≤ 57 → isIdStart (Char.ofNat n) = false := by
    intro n hn hn'
    interval_cases n <;> decide
  rw [← Char.ofNat_toNat c]
  exact hdigits c.toNat hlow hhigh

theorem splitWord_letter {first : Bool}
    (h : (if first then isIdStart else isIdPart) c = true) (fuel : Nat) (t : List Char) :
    splitWord (fuel + 1) first (c :: t) =
      (splitWord fuel false t).map fun (a, b, r) => (c :: a, c :: b, r) := by
  have hpart : isIdPart c = true := by
    cases first with
    | false => exact h
    | true => exact isIdPart_of_isIdStart h
  have hc := ne_backslash hpart
  rw [splitWord]
  · exact if_pos h
  · exact fun _ hc' _ => hc hc'
  · exact hc

theorem splitWord_end (h : EndsWord s) (fuel : Nat) :
    splitWord (fuel + 1) false s = some ([], [], s) := by
  cases s with
  | nil => rfl
  | cons c t =>
      obtain ⟨hpart, hc⟩ := h c t rfl
      rw [splitWord]
      · exact if_neg (Bool.eq_false_iff.mp hpart)
      · exact fun _ hc' _ => hc hc'
      · exact hc

theorem splitWord_append (h : ∀ c ∈ w, isIdPart c = true) (hs : EndsWord s) {fuel : Nat}
    (hf : w.length < fuel) : splitWord fuel false (w ++ s) = some (w, w, s) := by
  induction w generalizing fuel with
  | nil =>
      obtain ⟨fuel, rfl⟩ := Nat.exists_eq_add_one_of_ne_zero (Nat.ne_of_gt hf)
      exact splitWord_end hs fuel
  | cons c w ih =>
      obtain ⟨fuel, rfl⟩ := Nat.exists_eq_add_one_of_ne_zero (Nat.ne_of_gt (Nat.zero_lt_of_lt hf))
      have hc : (if false then isIdStart else isIdPart) c = true := h c List.mem_cons_self
      rw [List.cons_append, splitWord_letter hc,
        ih (fun d hd => h d (List.mem_cons_of_mem _ hd)) (Nat.lt_of_succ_lt_succ hf)]
      rfl

/-! ## Words -/

theorem scanWord_append (hw : IsWord w) (hs : EndsWord s) :
    scanWord (w ++ s) = ⟨.word (String.ofList w) false, w, s⟩ := by
  obtain ⟨c, t, rfl, hc⟩ := hw.starts
  have hsplit : splitWord ((c :: t ++ s).length + 1) true (c :: t ++ s) =
      some (c :: t, c :: t, s) := by
    have hfirst : (if true then isIdStart else isIdPart) c = true := hc
    have hlt : t.length < (c :: (t ++ s)).length := by
      rw [List.length_cons, List.length_append]
      omega
    rw [List.cons_append, splitWord_letter hfirst,
      splitWord_append (fun d hd => hw.letters d (List.mem_cons_of_mem _ hd)) hs hlt]
    rfl
  have hescape : (c :: t).contains '\\' = false := by
    rw [List.contains_eq_mem, decide_eq_false_iff_not]
    exact fun hm => ne_backslash (hw.letters _ hm) rfl
  rw [scanWord, hsplit]
  simp only [hescape]

/-- A word is taken off the front of a text up to its last letter. -/
theorem scanToken_word (hw : IsWord w) (hs : EndsWord s) :
    scanToken (w ++ s) = ⟨.word (String.ofList w) false, w, s⟩ := by
  rw [← scanWord_append hw hs]
  obtain ⟨c, t, rfl, hc⟩ := hw.starts
  have hne : ∀ d, isIdStart d = false → (c == d) = false := by
    intro d hd
    rw [beq_eq_false_iff_ne]
    rintro rfl
    rw [hc] at hd
    cases hd
  have hdigit : c.isDigit = false := by
    cases hd : c.isDigit with
    | false => rfl
    | true =>
        rw [isIdStart_of_isDigit hd] at hc
        cases hc
  rw [List.cons_append, scanToken]
  simp only [hne '"' (by decide), hne '\'' (by decide), hne '`' (by decide), hne '.' (by decide),
    hne '#' (by decide), hdigit, hc, Bool.or_false, Bool.false_and, Bool.true_or,
    if_neg Bool.false_ne_true, if_true]

/-! ## What follows a word -/

theorem not_isIdPart_of_isLineBreak (h : isLineBreak c = true) : isIdPart c = false := by
  simp only [isLineBreak, Bool.or_eq_true, beq_iff_eq] at h
  rcases h with ((rfl | rfl) | rfl) | rfl
  · decide
  · decide
  · decide +kernel
  · decide +kernel

theorem not_isIdPart_of_isSpace (h : isSpace c = true) : isIdPart c = false := by
  have hrow : ∀ n, 0x2000 ≤ n → n ≤ 0x200B → isIdPart (Char.ofNat n) = false := by
    intro n hn hn'
    interval_cases n <;> decide +kernel
  simp only [isSpace, Bool.or_eq_true, beq_iff_eq, Bool.and_eq_true, decide_eq_true_eq] at h
  rcases h with ((((((((((rfl | rfl) | rfl) | rfl) | rfl) | rfl) | rfl) | hc) | rfl) | rfl) | rfl) | rfl
  case inl.inl.inl.inl.inr =>
    rw [← Char.ofNat_toNat c]
    exact hrow c.toNat (UInt32.le_iff_toNat_le.mp hc.1) (UInt32.le_iff_toNat_le.mp hc.2)
  all_goals decide +kernel

/-- No word starts with a character of a gap. -/
theorem not_gap_of_isIdStart (h : isIdStart c = true) :
    isLineBreak c = false ∧ isSpace c = false ∧ c ≠ '/' := by
  have hpart := isIdPart_of_isIdStart h
  refine ⟨?_, ?_, ?_⟩
  · cases hb : isLineBreak c with
    | false => rfl
    | true =>
        rw [not_isIdPart_of_isLineBreak hb] at hpart
        cases hpart
  · cases hs : isSpace c with
    | false => rfl
    | true =>
        rw [not_isIdPart_of_isSpace hs] at hpart
        cases hpart
  · rintro rfl
    exact absurd h (by decide)

/-- A gap ends a word, unless it is empty and the word goes on behind it. -/
theorem Gap.endsWord (h : Gap g) (hs : g = [] → EndsWord s) : EndsWord (g ++ s) := by
  cases h with
  | nil => exact hs rfl
  | @space c g hc _ =>
      rw [Bool.or_eq_true] at hc
      have hpart : isIdPart c = false :=
        hc.elim not_isIdPart_of_isLineBreak not_isIdPart_of_isSpace
      refine endsWord_cons hpart ?_ _
      rintro rfl
      exact absurd hc (by decide)
  | line _ _ _ => exact endsWord_cons (by decide) (by decide) _
  | block _ _ => exact endsWord_cons (by decide) (by decide) _

end StaticStyle.Syntax
