import StaticStyle.Css.Name
import StaticStyle.Proofs.Css.Names

/-!
# Names that stand for themselves

A name stands for no more characters than it has.  The names that stand for themselves are those
without escapes (`nameValue_of_no_escape`, `all_isNameChar_of_unescape`).
-/

namespace StaticStyle.Css

open StaticStyle.Syntax (isHexDigit)

variable {c : Char} {s rest : List Char}

/-! ## Escapes are longer than what they stand for -/

theorem length_dropBlank_le (s : List Char) : (dropBlank s).length ≤ s.length := by
  unfold dropBlank
  split
  · simp only [List.length_cons]
    omega
  · split
    · simp only [List.length_cons]
      omega
    · exact le_rfl
  · exact le_rfl

/-- A name stands for no more characters than it has, and for less if it starts with an escape. -/
theorem length_unescape_le (count : Nat) (s : List Char) :
    (unescape count s).length ≤ s.length ∧
      ∀ c t, s = '\\' :: c :: t → (unescape count s).length < s.length := by
  fun_induction unescape count s with
  | case1 count c s hhex digits ih =>
      have hrest := length_dropBlank_le ((c :: s).drop digits.length)
      have hdigits : 1 ≤ digits.length := by
        have htake : digits = (c :: s.takeWhile isHexDigit).take 6 :=
          congrArg (List.take 6) (List.takeWhile_cons_of_pos hhex)
        rw [htake, List.take_succ_cons, List.length_cons]
        omega
      have hlt : (unescape count (dropBlank ((c :: s).drop digits.length))).length < s.length + 1 := by
        have hle := ih.1
        rw [List.length_drop, List.length_cons] at hrest
        omega
      simp only [List.length_cons]
      exact ⟨by omega, fun _ _ _ => by omega⟩
  | case2 count c s hhex ih =>
      have hle := ih.1
      simp only [List.length_cons]
      exact ⟨by omega, fun _ _ _ => by omega⟩
  | case3 count c s hesc ih =>
      refine ⟨by simpa only [List.length_cons, Nat.add_le_add_iff_right] using ih.1, fun d t heq => ?_⟩
      obtain ⟨rfl, rfl⟩ := List.cons.inj heq
      exact (hesc d t rfl rfl).elim
  | case4 =>
      refine ⟨Nat.zero_le _, ?_⟩
      rintro c t rfl
      exact Nat.succ_pos _

/-! ## Names without escapes -/

theorem unescape_of_no_escape {count : Nat} (hlength : s.length ≤ count) (h : '\\' ∉ s) :
    unescape count s = s := by
  induction s generalizing count with
  | nil => cases count <;> rfl
  | cons c s ih =>
      obtain ⟨count, rfl⟩ := Nat.exists_eq_add_one_of_ne_zero
        (Nat.ne_zero_of_lt (lt_of_lt_of_le (Nat.succ_pos _) hlength))
      rw [List.mem_cons, not_or] at h
      rw [List.length_cons] at hlength
      rw [unescape]
      · rw [ih (by omega) h.2]
      · rintro d t rfl -
        exact h.1 rfl

/-- A name stands for itself if it has no escapes. -/
theorem nameValue_of_no_escape (h : '\\' ∉ s) : nameValue s = s := unescape_of_no_escape le_rfl h

/-- A text that is read as a name and stands for itself has no escapes. -/
theorem all_isNameChar_of_unescape {count : Nat} (hlength : s.length ≤ count)
    (hspan : spanName (s ++ rest) = (s, rest)) (h : unescape count s = s) :
    ∀ c ∈ s, isNameChar c = true := by
  induction s generalizing count with
  | nil => exact fun c hc => absurd hc List.not_mem_nil
  | cons c s ih =>
      obtain ⟨count, rfl⟩ := Nat.exists_eq_add_one_of_ne_zero
        (Nat.ne_zero_of_lt (lt_of_lt_of_le (Nat.succ_pos _) hlength))
      by_cases hbackslash : c = '\\'
      · subst hbackslash
        cases s with
        | nil =>
            -- what a single backslash starts takes the next character too, or nothing
            cases rest with
            | nil => cases hspan
            | cons d rest =>
                rw [List.cons_append, List.nil_append, spanName] at hspan
                split at hspan <;> cases (Prod.mk.inj hspan).1
        | cons d s =>
            have hlt := (length_unescape_le (count + 1) _).2 d s rfl
            rw [h] at hlt
            exact absurd hlt (lt_irrefl _)
      · rw [List.cons_append, spanName] at hspan
        · split at hspan
          · rename_i hname
            obtain ⟨htext, hrest⟩ := Prod.mk.inj hspan
            rw [unescape] at h
            · refine List.forall_mem_cons.mpr ⟨hname, ih ?_ ?_ (List.cons.inj h).2⟩
              · rw [List.length_cons] at hlength
                omega
              · exact Prod.ext (List.cons.inj htext).2 hrest
            · exact fun d t hc _ => hbackslash hc
          · cases (Prod.mk.inj hspan).1
        · exact fun d t hc _ => hbackslash hc

end StaticStyle.Css
