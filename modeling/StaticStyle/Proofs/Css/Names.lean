import StaticStyle.Proofs.Css.Tokens

/-!
# Names without escapes

A text is a plain name if it is a name as it stands, without an escaped character
(`isPlainName`).  Its characters are read as a part of the name that they start, whatever follows
(`spanName_append_of_all`), and what is read as a name starts one (`spanName_of_ident`).
-/

namespace StaticStyle.Css

variable {c : Char} {s name rest : List Char}

/-- Whether a text is a name without escapes. -/
def isPlainName (s : List Char) : Bool := startsName s && s.all isNameChar

theorem ne_backslash_of_isNameChar (h : isNameChar c = true) : c ≠ '\\' := by
  rintro rfl
  exact absurd h (by decide)

/-- A text without escapes is read up to the first character that no name goes on with. -/
theorem spanName_of_no_escape (h : '\\' ∉ s) : spanName s = (s.takeWhile isNameChar, s.dropWhile isNameChar) := by
  induction s with
  | nil => rfl
  | cons c s ih =>
      rw [List.mem_cons, not_or] at h
      rw [spanName]
      · split
        · rename_i hname
          rw [ih h.2, List.takeWhile_cons_of_pos hname, List.dropWhile_cons_of_pos hname]
        · rename_i hname
          rw [List.takeWhile_cons_of_neg hname, List.dropWhile_cons_of_neg hname]
      · rintro d t rfl -
        exact h.1 rfl

/-- The characters of a name go on with the name behind them. -/
theorem spanName_append_of_all (h : ∀ c ∈ name, isNameChar c = true) (rest : List Char) :
    spanName (name ++ rest) = (name ++ (spanName rest).1, (spanName rest).2) := by
  induction name with
  | nil => rfl
  | cons c name ih =>
      have hc := h c List.mem_cons_self
      rw [List.cons_append, spanName]
      · rw [if_pos hc, ih fun d hd => h d (List.mem_cons_of_mem c hd)]
        rfl
      · rintro d t rfl -
        exact ne_backslash_of_isNameChar hc rfl

theorem isPlainName_iff : isPlainName s = true ↔ startsName s = true ∧ ∀ c ∈ s, isNameChar c = true := by
  rw [isPlainName, Bool.and_eq_true, List.all_eq_true]

theorem startsEscape_of_ne (h : c ≠ '\\') (s : List Char) : startsEscape (c :: s) = false := by
  unfold startsEscape
  split
  · rename_i heq
    exact absurd (List.cons.inj heq).1 h
  · rfl

/-- Two characters of a name without escapes decide whether it starts a name. -/
theorem startsName_append_of_all (h : ∀ c ∈ name, isNameChar c = true) (hlength : 2 ≤ name.length)
    (rest : List Char) : startsName (name ++ rest) = startsName name := by
  have hescape : ∀ c ∈ name, ∀ t, startsEscape (c :: t) = false :=
    fun c hc => startsEscape_of_ne (ne_backslash_of_isNameChar (h c hc))
  match name, hlength with
  | c :: d :: name, _ =>
      have hc := hescape c List.mem_cons_self
      have hd := hescape d (List.mem_cons_of_mem _ List.mem_cons_self)
      by_cases hhyphen : c = '-'
      · subst hhyphen
        by_cases hsecond : d = '-'
        · subst hsecond
          rfl
        · simp only [List.cons_append, startsName, hd]
      · simp only [List.cons_append, startsName_of_ne hhyphen, hc]

theorem startsName_append_of_plain (h : isPlainName name = true) (rest : List Char) :
    startsName (name ++ rest) = true := by
  obtain ⟨hstart, hall⟩ := isPlainName_iff.mp h
  match name with
  | [] => cases hstart
  | [c] =>
      have hhyphen : c ≠ '-' := by
        rintro rfl
        exact absurd hstart (by decide)
      have hescape := startsEscape_of_ne (ne_backslash_of_isNameChar (hall c List.mem_cons_self))
      rw [startsName_of_ne hhyphen, hescape, Bool.or_false] at hstart
      rw [List.singleton_append, startsName_of_ne hhyphen, hstart, Bool.true_or]
  | c :: d :: name => exact (startsName_append_of_all hall (by simp) rest).trans hstart

/-! ## Where a name is read -/

theorem startsDigits_of_ne (h : c ≠ '.') (s : List Char) : startsDigits (c :: s) = c.isDigit := by
  simp [startsDigits, h]

theorem firstToken_at (h : startsName s = true) :
    firstToken '@' s = (⟨.atKeyword, '@' :: (spanName s).1⟩, (spanName s).2) := by
  have hat : firstToken '@' s = otherToken '@' s := rfl
  have hnumber : startsNumber ('@' :: s) = false := rfl
  have hname : startsName ('@' :: s) = false := rfl
  rw [hat, otherToken, hnumber, hname, h]
  rfl

/-- A character that starts a name, or an escape, starts no number. -/
theorem not_isDigit_of_isNameStart (h : isNameStart c = true ∨ c = '\\') :
    c.isDigit = false ∧ c ≠ '+' ∧ c ≠ '-' ∧ c ≠ '.' := by
  rcases h with h | rfl
  · refine ⟨?_, ?_, ?_, ?_⟩
    · by_contra hdigit
      simp only [Bool.not_eq_false, Char.isDigit, Bool.and_eq_true, decide_eq_true_eq,
        UInt32.le_iff_toNat_le] at hdigit
      obtain ⟨hge, hle⟩ := hdigit
      change 48 ≤ c.toNat at hge
      change c.toNat ≤ 57 at hle
      unfold isNameStart Char.isAlpha Char.isUpper Char.isLower at h
      simp only [Bool.or_eq_true, Bool.and_eq_true, decide_eq_true_eq, beq_iff_eq,
        UInt32.le_iff_toNat_le] at h
      rcases h with ((⟨h, -⟩ | ⟨h, -⟩) | rfl) | h
      · change 65 ≤ c.toNat at h
        omega
      · change 97 ≤ c.toNat at h
        omega
      · exact absurd hle (by decide)
      · omega
    all_goals
      rintro rfl
      exact absurd h (by decide)
  · decide

/-- What starts a name behind a hyphen, or without one. -/
theorem startsName_cases (h : startsName s = true) :
    (∃ t, s = '-' :: '-' :: t) ∨ (∃ c t, s = '-' :: c :: t ∧ (isNameStart c = true ∨ c = '\\')) ∨
      ∃ c t, s = c :: t ∧ (isNameStart c = true ∨ c = '\\') := by
  have hescape : ∀ c t, startsEscape (c :: t) = true → c = '\\' := by
    intro c t hesc
    by_contra hne
    rw [startsEscape_of_ne hne] at hesc
    cases hesc
  unfold startsName at h
  split at h
  · rename_i t
    exact Or.inl ⟨t, rfl⟩
  · rename_i c t _
    exact Or.inr (Or.inl ⟨c, t, rfl, (Bool.or_eq_true_iff.mp h).imp_right (hescape c t)⟩)
  · rename_i c t _ _
    exact Or.inr (Or.inr ⟨c, t, rfl, (Bool.or_eq_true_iff.mp h).imp_right (hescape c t)⟩)
  · cases h

/-- What starts a name starts no number. -/
theorem not_startsNumber_of_startsName (h : startsName s = true) : startsNumber s = false := by
  rcases startsName_cases h with ⟨t, rfl⟩ | ⟨c, t, rfl, hc⟩ | ⟨c, t, rfl, hc⟩
  · cases t <;> rfl
  · obtain ⟨hdigit, -, -, hpoint⟩ := not_isDigit_of_isNameStart hc
    exact (startsDigits_of_ne hpoint t).trans hdigit
  · obtain ⟨hdigit, hplus, hminus, hpoint⟩ := not_isDigit_of_isNameStart hc
    rw [startsNumber_of_ne hplus hminus, startsDigits_of_ne hpoint, hdigit]

theorem firstToken_point (h : startsName s = true) :
    firstToken '.' s = (⟨.delimiter '.', ['.']⟩, s) := by
  have hpoint : firstToken '.' s = otherToken '.' s := rfl
  have hnumber : startsNumber ('.' :: s) = false := by
    rcases startsName_cases h with ⟨t, rfl⟩ | ⟨c, t, rfl, -⟩ | ⟨c, t, rfl, hc⟩
    · rfl
    · rfl
    · exact (not_isDigit_of_isNameStart hc).1
  rw [hpoint, otherToken, hnumber]
  rfl

/-- A name that is no `-->` is read as a name. -/
theorem firstToken_of_startsName (h : startsName (c :: s) = true)
    (hclose : ∀ t, c = '-' → s ≠ '-' :: '>' :: t) : firstToken c s = nameToken (c :: s) := by
  have hnumber := not_startsNumber_of_startsName h
  have hne : isNameStart c = true ∨ c = '\\' ∨ c = '-' := by
    rcases startsName_cases h with ⟨t, heq⟩ | ⟨d, t, heq, -⟩ | ⟨d, t, heq, hd⟩
    · exact Or.inr (Or.inr (List.cons.inj heq).1)
    · exact Or.inr (Or.inr (List.cons.inj heq).1)
    · rw [(List.cons.inj heq).1]
      exact hd.imp_right Or.inl
  have hplain : isBlank c = false ∧ (c == '"' || c == '\'') = false ∧ c ≠ '/' ∧ c ≠ '<' := by
    have hother : ∀ d, isNameStart d = false ∧ d ≠ '\\' ∧ d ≠ '-' → c ≠ d := by
      rintro d ⟨hstart, hbackslash, hhyphen⟩ rfl
      rcases hne with hne | hne | hne
      · rw [hstart] at hne
        cases hne
      · exact hbackslash hne
      · exact hhyphen hne
    refine ⟨?_, ?_, hother _ (by decide), hother _ (by decide)⟩
    · simp [isBlank, isNewline, hother '\n' (by decide), hother '\r' (by decide),
        hother '\x0c' (by decide), hother ' ' (by decide), hother '\t' (by decide)]
    · simp [hother '"' (by decide), hother '\'' (by decide)]
  obtain ⟨hblank, hquote, hstroke, hopen⟩ := hplain
  unfold firstToken
  rw [hblank, if_neg Bool.false_ne_true, hquote, if_neg Bool.false_ne_true]
  split
  · exact absurd rfl hstroke
  · exact absurd rfl hopen
  · exact absurd rfl (hclose _ rfl)
  · rw [otherToken, hnumber, if_neg Bool.false_ne_true, if_pos h]

theorem firstToken_of_not_ascii (h : 0x80 ≤ c.toNat) (s : List Char) :
    firstToken c s = nameToken (c :: s) := by
  have hstart : isNameStart c = true := by
    rw [isNameStart, decide_eq_true h, Bool.or_true]
  have hhyphen : c ≠ '-' := by
    rintro rfl
    exact absurd h (by decide)
  refine firstToken_of_startsName ?_ fun t hc => absurd hc hhyphen
  rw [startsName_of_ne hhyphen, hstart, Bool.true_or]

/-! ## Names in front of a blank -/

theorem spanName_blank (s : List Char) : spanName (' ' :: s) = ([], ' ' :: s) := by
  cases s <;> rfl

/-- A plain name in front of a blank is read as a name. -/
theorem tokens_of_plain (h : isPlainName name = true) (rest : List Char) :
    tokens (name ++ ' ' :: rest) = ⟨.ident, name⟩ :: tokens (' ' :: rest) := by
  obtain ⟨hstart, hall⟩ := isPlainName_iff.mp h
  have hspan : spanName (name ++ ' ' :: rest) = (name, ' ' :: rest) := by
    rw [spanName_append_of_all hall, spanName_blank, List.append_nil]
  cases name with
  | nil => cases hstart
  | cons c name =>
      have hfirst : firstToken c (name ++ ' ' :: rest) = nameToken (c :: (name ++ ' ' :: rest)) := by
        refine firstToken_of_startsName (startsName_append_of_plain h _) fun t _ heq => ?_
        match name, heq with
        | [], heq => cases heq
        | [d], heq => cases heq
        | d :: e :: name, heq =>
            obtain ⟨-, htail⟩ := List.cons.inj heq
            obtain ⟨rfl, -⟩ := List.cons.inj htail
            exact absurd (hall '>' (by simp)) (by decide)
      rw [List.cons_append, tokens_cons, hfirst]
      rw [List.cons_append] at hspan
      rw [nameToken_of_ne (congrArg Prod.snd hspan) (by decide), hspan]

/-! ## What is read as a name -/

theorem kind_numberToken (s : List Char) : (numberToken s).1.kind = .number := by
  unfold numberToken
  dsimp only
  split
  · rfl
  · split <;> rfl

theorem charKind_ne_ident (c : Char) : charKind c ≠ .ident := by
  unfold charKind
  repeat' split
  all_goals exact TokenKind.noConfusion

theorem spanName_of_nameToken (h : (nameToken s).1.kind = .ident) :
    spanName s = ((nameToken s).1.text, (nameToken s).2) := by
  unfold nameToken at h ⊢
  dsimp only at h ⊢
  split at h
  · split at h
    · dsimp only at h
      split at h <;> cases h
    · cases h
  · rfl

/-- What is read as a name is a name up to what follows. -/
theorem spanName_of_ident (h : (firstToken c s).1.kind = .ident) :
    startsName (c :: s) = true ∧
      spanName (c :: s) = ((firstToken c s).1.text, (firstToken c s).2) := by
  unfold firstToken at h ⊢
  split at h
  · cases h
  · rename_i hblank
    split at h
    · dsimp only at h
      split at h <;> cases h
    · rename_i hquote
      rw [if_neg hblank, if_neg hquote]
      split at h
      · cases h
      · cases h
      · cases h
      · unfold otherToken at h ⊢
        split at h
        · rw [kind_numberToken] at h
          cases h
        · rename_i hnumber
          split at h
          · rename_i hname
            rw [if_neg hnumber, if_pos hname]
            exact ⟨hname, spanName_of_nameToken h⟩
          · split at h
            · cases h
            · split at h
              · cases h
              · exact absurd h (charKind_ne_ident _)

end StaticStyle.Css
