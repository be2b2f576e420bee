import Mathlib.Data.List.TakeDrop
import Mathlib.Data.List.TakeWhile
import StaticStyle.Css.Token

/-!
# The parts of tokens

A name, a number, a string, a comment or an address is read up to where it ends, and what
was read and the rest are the text.  A reader looks at most three characters ahead, and never
beyond a brace or a semicolon.  So a rest that has one of these in it, or three
characters, *settles* how the part in front of it is read (`Settles`): more text behind it
changes nothing.
-/

namespace StaticStyle.Css

variable {c d : Char} {s t w : List Char}

/-! ## What settles a token -/

/-- The characters that are tokens on their own wherever a token starts. -/
def isSolid (c : Char) : Bool := c == ';' || c == '{' || c == '}'

theorem isSolid_iff : isSolid c = true ↔ c = ';' ∨ c = '{' ∨ c = '}' := by
  simp [isSolid, or_assoc]

/-- What follows a text does not matter for the token in front of it. -/
def Settles (s : List Char) : Prop := 3 ≤ s.length ∨ ∃ c ∈ s, isSolid c = true

theorem Settles.append_left (h : Settles s) (t : List Char) : Settles (t ++ s) := by
  rcases h with h | ⟨c, hc, hsolid⟩
  · exact Or.inl (by rw [List.length_append]; omega)
  · exact Or.inr ⟨c, List.mem_append_right t hc, hsolid⟩

theorem Settles.of_text (h : Settles t) (htext : s ++ t = w) : Settles w := htext ▸ h.append_left s

/-- A solid character is the first or the second, or there are three characters. -/
theorem Settles.cases (h : Settles s) :
    (∃ c t, s = c :: t ∧ isSolid c = true) ∨ (∃ b c t, s = b :: c :: t ∧ isSolid c = true) ∨
      ∃ a b c t, s = a :: b :: c :: t := by
  match s, h with
  | [], h => rcases h with h | ⟨c, hc, -⟩
             · exact absurd h (by simp)
             · exact absurd hc List.not_mem_nil
  | [c], h =>
      rcases h with h | ⟨d, hd, hsolid⟩
      · exact absurd h (by simp)
      · rw [List.mem_singleton.mp hd] at hsolid
        exact Or.inl ⟨c, [], rfl, hsolid⟩
  | [b, c], h =>
      rcases h with h | ⟨d, hd, hsolid⟩
      · exact absurd h (by simp)
      · rcases List.mem_cons.mp hd with rfl | hd
        · exact Or.inl ⟨d, [c], rfl, hsolid⟩
        · rw [List.mem_singleton.mp hd] at hsolid
          exact Or.inr (Or.inl ⟨b, c, [], rfl, hsolid⟩)
  | a :: b :: c :: t, _ => exact Or.inr (Or.inr ⟨a, b, c, t, rfl⟩)

theorem Settles.ne_nil (h : Settles s) : s ≠ [] := by
  rcases h.cases with ⟨_, _, rfl, -⟩ | ⟨_, _, _, rfl, -⟩ | ⟨_, _, _, _, rfl⟩ <;>
    exact List.cons_ne_nil _ _

theorem not_settles (hlength : s.length < 3) (hplain : s.all fun c => !isSolid c) : ¬ Settles s := by
  rintro (h | ⟨c, hc, hsolid⟩)
  · omega
  · have hno := List.all_eq_true.mp hplain c hc
    rw [hsolid] at hno
    cases hno

theorem not_settles_singleton (h : isSolid c = false) : ¬ Settles [c] :=
  not_settles (by simp) (by simp [h])

/-- A short text that the whole starts with is in the part that settles. -/
theorem Settles.exists_append {short rest : List Char} (h : Settles s) (heq : s ++ w = short ++ rest)
    (hlength : short.length ≤ 3) (hplain : short.all fun c => !isSolid c) : ∃ t, s = short ++ t := by
  rcases Nat.lt_or_ge s.length short.length with hlt | hge
  · obtain ⟨t, rfl⟩ := List.prefix_of_prefix_length_le ⟨w, heq⟩ (List.prefix_append short rest) hlt.le
    rw [List.all_append, Bool.and_eq_true] at hplain
    exact absurd h (not_settles (by omega) hplain.1)
  · obtain ⟨t, ht⟩ := List.prefix_of_prefix_length_le ⟨rest, heq.symm⟩ (List.prefix_append s w) hge
    exact ⟨t, ht.symm⟩

/-! ## Looking ahead -/

theorem startsEscape_cons_cons (a b : Char) (s t : List Char) :
    startsEscape (a :: b :: s) = startsEscape (a :: b :: t) := by
  by_cases h : a = '\\'
  · subst h
    rfl
  · simp [startsEscape, h]

theorem startsName_cons_cons_cons (a b c : Char) (s t : List Char) :
    startsName (a :: b :: c :: s) = startsName (a :: b :: c :: t) := by
  by_cases h : a = '-'
  · subst h
    by_cases hb : b = '-'
    · subst hb
      rfl
    · simp [startsName, startsEscape_cons_cons b c s t]
  · simp [startsName, h, startsEscape_cons_cons a b (c :: s) (c :: t)]

theorem startsName_of_ne (h : c ≠ '-') (s : List Char) :
    startsName (c :: s) = (isNameStart c || startsEscape (c :: s)) := by
  simp [startsName, h]

theorem startsDigits_cons_cons (a b : Char) (s t : List Char) :
    startsDigits (a :: b :: s) = startsDigits (a :: b :: t) := by
  by_cases h : a = '.'
  · subst h
    rfl
  · simp [startsDigits, h]

theorem startsNumber_of_ne (hplus : c ≠ '+') (hminus : c ≠ '-') (s : List Char) :
    startsNumber (c :: s) = startsDigits (c :: s) := by
  simp [startsNumber, hplus, hminus]

theorem startsEscape_append (h : Settles s) (w : List Char) :
    startsEscape (s ++ w) = startsEscape s := by
  rcases h.cases with ⟨c, t, rfl, hc⟩ | ⟨b, c, t, rfl, -⟩ | ⟨a, b, c, t, rfl⟩
  · rcases isSolid_iff.mp hc with rfl | rfl | rfl <;> rfl
  · exact startsEscape_cons_cons b c _ _
  · exact startsEscape_cons_cons a b _ _

theorem startsName_append (h : Settles s) (w : List Char) :
    startsName (s ++ w) = startsName s := by
  rcases h.cases with ⟨c, t, rfl, hc⟩ | ⟨b, c, t, rfl, hc⟩ | ⟨a, b, c, t, rfl⟩
  · rcases isSolid_iff.mp hc with rfl | rfl | rfl <;> rfl
  · by_cases hb : b = '-'
    · subst hb
      rcases isSolid_iff.mp hc with rfl | rfl | rfl <;> rfl
    · simp [startsName, hb, startsEscape_cons_cons b c (t ++ w) t]
  · exact startsName_cons_cons_cons a b c _ _

theorem startsNumber_append (h : Settles s) (w : List Char) :
    startsNumber (s ++ w) = startsNumber s := by
  have hrest : ∀ b c t, (isSolid c = true ∨ ∃ d u, t = d :: u) →
      startsNumber (b :: c :: (t ++ w)) = startsNumber (b :: c :: t) := by
    intro b c t ht
    have hdigits : startsDigits (c :: (t ++ w)) = startsDigits (c :: t) := by
      rcases ht with hc | ⟨d, u, rfl⟩
      · rcases isSolid_iff.mp hc with rfl | rfl | rfl <;> rfl
      · exact startsDigits_cons_cons c d _ _
    by_cases hplus : b = '+'
    · subst hplus
      exact hdigits
    · by_cases hminus : b = '-'
      · subst hminus
        exact hdigits
      · rw [startsNumber_of_ne hplus hminus, startsNumber_of_ne hplus hminus]
        exact startsDigits_cons_cons b c _ _
  rcases h.cases with ⟨c, t, rfl, hc⟩ | ⟨b, c, t, rfl, hc⟩ | ⟨a, b, c, t, rfl⟩
  · rcases isSolid_iff.mp hc with rfl | rfl | rfl <;> rfl
  · exact hrest b c t (Or.inl hc)
  · exact hrest a b (c :: t) (Or.inr ⟨c, t, rfl⟩)

/-! ## Parts of tokens -/

theorem span_text {α : Type} (p : α → Bool) (s : List α) : (s.span p).1 ++ (s.span p).2 = s := by
  rw [List.span_eq_takeWhile_dropWhile]
  exact List.takeWhile_append_dropWhile

theorem span_append {α : Type} {p : α → Bool} {s : List α} (h : (s.span p).2 ≠ []) (w : List α) :
    (s ++ w).span p = ((s.span p).1, (s.span p).2 ++ w) := by
  rw [List.span_eq_takeWhile_dropWhile] at h ⊢
  dsimp only at h
  have htake : (s.takeWhile p).length ≠ s.length := by
    intro hlen
    have hsplit := congrArg List.length (List.takeWhile_append_dropWhile (p := p) (l := s))
    rw [List.length_append] at hsplit
    exact h (List.eq_nil_of_length_eq_zero (by omega))
  rw [List.span_eq_takeWhile_dropWhile, List.takeWhile_append, if_neg htake, List.dropWhile_append,
    if_neg (by rw [List.isEmpty_iff]; exact h)]

theorem head?_append (h : s ≠ []) (w : List Char) : (s ++ w).head? = s.head? := by
  obtain ⟨c, t, rfl⟩ := List.exists_cons_of_ne_nil h
  rfl

theorem spanName_text (s : List Char) : (spanName s).1 ++ (spanName s).2 = s := by
  fun_induction spanName s with
  | case1 c s hline => rfl
  | case2 c s hline name rest heq ih =>
      rw [heq] at ih
      exact congrArg ('\\' :: c :: ·) ih
  | case3 c s hesc hname name rest heq ih =>
      rw [heq] at ih
      exact congrArg (c :: ·) ih
  | case4 c s hesc hname => rfl
  | case5 => rfl

theorem spanName_append (h : Settles (spanName s).2) (w : List Char) :
    spanName (s ++ w) = ((spanName s).1, (spanName s).2 ++ w) := by
  fun_induction spanName s with
  | case1 c s hline => simp [spanName, hline]
  | case2 c s hline name rest heq ih =>
      rw [heq] at ih
      simp only [List.cons_append, spanName, hline, if_neg Bool.false_ne_true, ih h]
  | case3 c s hesc hname name rest heq ih =>
      rw [heq] at ih
      rw [List.cons_append, spanName]
      · rw [if_pos hname, ih h]
      · rintro _ _ rfl _
        exact absurd hname (by decide)
  | case4 c s hesc hname =>
      rw [List.cons_append, spanName]
      · rw [if_neg hname]
      · rintro d t rfl ht
        cases s with
        | nil => exact not_settles_singleton (by decide) h
        | cons e s => exact hesc e s rfl rfl
  | case5 => exact absurd rfl h.ne_nil

theorem spanString_text (quote : Char) (s : List Char) :
    (spanString quote s).2.1 ++ (spanString quote s).2.2 = s := by
  fun_induction spanString quote s with
  | case1 => rfl
  | case2 c s good text rest heq ih =>
      rw [heq] at ih
      exact congrArg ('\\' :: c :: ·) ih
  | case3 => rfl
  | case4 => rfl
  | case5 c s hesc hquote hline good text rest heq ih =>
      rw [heq] at ih
      exact congrArg (c :: ·) ih

theorem spanString_append {quote : Char} (h : (spanString quote s).2.2 ≠ []) (w : List Char) :
    spanString quote (s ++ w) =
      ((spanString quote s).1, (spanString quote s).2.1, (spanString quote s).2.2 ++ w) := by
  fun_induction spanString quote s with
  | case1 => exact absurd rfl h
  | case2 c s good text rest heq ih =>
      rw [heq] at ih
      simp only [List.cons_append, spanString, ih h]
  | case3 s hesc =>
      obtain ⟨e, s, rfl⟩ := List.exists_cons_of_ne_nil h
      rw [List.cons_append, spanString]
      · rw [if_pos rfl]
      · exact fun _ _ hc _ => hesc e s hc rfl
  | case4 c s hesc hquote hline =>
      rw [List.cons_append, spanString]
      · rw [if_neg hquote, if_pos hline]
      · rintro _ _ rfl _
        exact absurd hline (by decide)
  | case5 c s hesc hquote hline good text rest heq ih =>
      rw [heq] at ih
      have hs : s ≠ [] := by
        rintro rfl
        cases heq
        exact h rfl
      obtain ⟨e, s, rfl⟩ := List.exists_cons_of_ne_nil hs
      rw [List.cons_append, spanString]
      · rw [if_neg hquote, if_neg hline, ih h]
      · exact fun _ _ hc _ => hesc e s hc rfl

theorem spanComment_text (s : List Char) : (spanComment s).1 ++ (spanComment s).2 = s := by
  fun_induction spanComment s with
  | case1 => rfl
  | case2 => rfl
  | case3 c s h text rest heq ih =>
      rw [heq] at ih
      exact congrArg (c :: ·) ih

/-- A comment is read as it stands if a text follows it or if it is complete. -/
theorem spanComment_append
    (h : (spanComment s).2 ≠ [] ∨ ∃ body, (spanComment s).1 = body ++ ['*', '/']) (w : List Char) :
    spanComment (s ++ w) = ((spanComment s).1, (spanComment s).2 ++ w) := by
  fun_induction spanComment s with
  | case1 =>
      rcases h with h | ⟨body, h⟩
      · exact absurd rfl h
      · simp at h
  | case2 => rfl
  | case3 c s hend text rest heq ih =>
      rw [heq] at ih
      have hs : s ≠ [] ∧ (rest ≠ [] ∨ ∃ body, text = body ++ ['*', '/']) := by
        have htext := spanComment_text s
        rw [heq] at htext
        rcases h with h | ⟨body, h⟩
        · refine ⟨?_, Or.inl h⟩
          rintro rfl
          exact h (List.append_eq_nil_iff.mp htext).2
        · cases body with
          | nil =>
              -- what is left of the comment would be its last stroke, right behind a star
              obtain ⟨rfl, rfl⟩ := List.cons.inj h
              exact absurd htext.symm (hend rest rfl)
          | cons b body =>
              obtain ⟨-, rfl⟩ := List.cons.inj h
              refine ⟨?_, Or.inr ⟨body, rfl⟩⟩
              rintro rfl
              simp at htext
      obtain ⟨e, s, rfl⟩ := List.exists_cons_of_ne_nil hs.1
      rw [List.cons_append, spanComment]
      · rw [ih hs.2]
      · intro t hc ht
        rw [List.cons_append] at ht
        exact hend s hc (congrArg (· :: s) (List.cons.inj ht).1)

theorem spanUrl_text (s : List Char) : (spanUrl s).1 ++ (spanUrl s).2 = s := by
  fun_induction spanUrl s with
  | case1 => rfl
  | case2 c s text rest heq ih =>
      rw [heq] at ih
      exact congrArg ('\\' :: c :: ·) ih
  | case3 => rfl
  | case4 c s hesc hclose text rest heq ih =>
      rw [heq] at ih
      exact congrArg (c :: ·) ih

theorem spanUrl_append (h : (spanUrl s).2 ≠ []) (w : List Char) :
    spanUrl (s ++ w) = ((spanUrl s).1, (spanUrl s).2 ++ w) := by
  fun_induction spanUrl s with
  | case1 => exact absurd rfl h
  | case2 c s text rest heq ih =>
      rw [heq] at ih
      simp only [List.cons_append, spanUrl, ih h]
  | case3 s hesc =>
      rw [List.cons_append, spanUrl]
      · rw [if_pos rfl]
      · intro _ _ hc _
        exact absurd hc (by decide)
  | case4 c s hesc hclose text rest heq ih =>
      rw [heq] at ih
      have hs : s ≠ [] := by
        rintro rfl
        cases heq
        exact h rfl
      obtain ⟨e, s, rfl⟩ := List.exists_cons_of_ne_nil hs
      rw [List.cons_append, spanUrl]
      · rw [if_neg hclose, ih h]
      · exact fun _ _ hc _ => hesc e s hc rfl

/-- Blanks up to the end of a text do not end an address. -/
theorem spanUrl_of_blanks (h : ∀ c ∈ s, isBlank c = true) : (spanUrl s).2 = [] := by
  fun_induction spanUrl s with
  | case1 => rfl
  | case2 c s text rest heq ih =>
      exact absurd (h '\\' List.mem_cons_self) (by decide)
  | case3 s hesc => exact absurd (h ')' List.mem_cons_self) (by decide)
  | case4 c s hesc hclose text rest heq ih =>
      rw [heq] at ih
      exact ih fun d hd => h d (List.mem_cons_of_mem c hd)

/-! ## Numbers -/

theorem spanSign_of_ne (hplus : c ≠ '+') (hminus : c ≠ '-') (s : List Char) :
    spanSign (c :: s) = ([], c :: s) := by
  simp [spanSign, hplus, hminus]

theorem spanSign_text (s : List Char) : (spanSign s).1 ++ (spanSign s).2 = s := by
  unfold spanSign
  split <;> rfl

theorem spanSign_append (h : s ≠ []) (w : List Char) :
    spanSign (s ++ w) = ((spanSign s).1, (spanSign s).2 ++ w) := by
  obtain ⟨c, s, rfl⟩ := List.exists_cons_of_ne_nil h
  by_cases hplus : c = '+'
  · subst hplus
    rfl
  · by_cases hminus : c = '-'
    · subst hminus
      rfl
    · rw [List.cons_append, spanSign_of_ne hplus hminus, spanSign_of_ne hplus hminus]
      rfl

theorem spanFraction_of_ne (h : c ≠ '.') (s : List Char) : spanFraction (c :: s) = ([], c :: s) := by
  rw [spanFraction]
  exact fun _ _ hc => h (List.cons.inj hc).1

theorem spanFraction_text (s : List Char) : (spanFraction s).1 ++ (spanFraction s).2 = s := by
  unfold spanFraction
  split
  · split
    · rename_i c t _
      exact congrArg ('.' :: ·) (span_text Char.isDigit (c :: t))
    · rfl
  · rfl

theorem spanFraction_append (h : Settles (spanFraction s).2) (w : List Char) :
    spanFraction (s ++ w) = ((spanFraction s).1, (spanFraction s).2 ++ w) := by
  match s with
  | [] => exact absurd rfl h.ne_nil
  | [c] =>
      by_cases hdot : c = '.'
      · subst hdot
        exact absurd h (not_settles_singleton (by decide))
      · rw [List.cons_append, spanFraction_of_ne hdot, spanFraction_of_ne hdot]
        rfl
  | c :: d :: s =>
      by_cases hdot : c = '.'
      · subst hdot
        cases hd : d.isDigit with
        | true =>
            simp only [spanFraction, hd, if_true, List.cons_append] at h ⊢
            rw [← List.cons_append, span_append h.ne_nil]
        | false => simp only [spanFraction, hd, if_neg Bool.false_ne_true, List.cons_append]
      · rw [List.cons_append, spanFraction_of_ne hdot, spanFraction_of_ne hdot]
        rfl

theorem spanExponent_text (s : List Char) : (spanExponent s).1 ++ (spanExponent s).2 = s := by
  cases s with
  | nil => rfl
  | cons e s =>
      unfold spanExponent
      dsimp only
      split
      · split
        · rw [List.cons_append, List.append_assoc, span_text, spanSign_text]
        · rfl
      · rfl

/-- Behind the letter of an exponent, a sign that ends the text settles nothing. -/
theorem spanSign_ne_nil {e : Char} (he : isSolid e = false) (h : Settles (e :: s)) :
    (spanSign s).2 ≠ [] := by
  rcases h.cases with ⟨_, _, heq, hc⟩ | ⟨_, c, t, heq, hc⟩ | ⟨_, b, c, t, heq⟩
  · rw [← (List.cons.inj heq).1, he] at hc
    cases hc
  · obtain ⟨-, rfl⟩ := List.cons.inj heq
    rcases isSolid_iff.mp hc with rfl | rfl | rfl <;> exact List.cons_ne_nil _ _
  · obtain ⟨-, rfl⟩ := List.cons.inj heq
    unfold spanSign
    split
    · rename_i hb
      obtain ⟨-, rfl⟩ := List.cons.inj hb
      exact List.cons_ne_nil _ _
    · rename_i hb
      obtain ⟨-, rfl⟩ := List.cons.inj hb
      exact List.cons_ne_nil _ _
    · exact List.cons_ne_nil _ _

theorem spanExponent_append (h : Settles (spanExponent s).2) (w : List Char) :
    spanExponent (s ++ w) = ((spanExponent s).1, (spanExponent s).2 ++ w) := by
  cases s with
  | nil => exact absurd rfl h.ne_nil
  | cons e s =>
      have hsettles : Settles (e :: s) := h.of_text (spanExponent_text (e :: s))
      simp only [spanExponent, List.cons_append] at h ⊢
      by_cases he : (e == 'e' || e == 'E') = true
      · have hsolid : isSolid e = false := by
          rcases Bool.or_eq_true_iff.mp he with h | h <;> rw [beq_iff_eq.mp h] <;> rfl
        have htail := spanSign_ne_nil hsolid hsettles
        have hs : s ≠ [] := by
          rintro rfl
          exact htail rfl
        rw [if_pos he] at h ⊢
        rw [if_pos he, spanSign_append hs]
        dsimp only
        rw [head?_append htail]
        by_cases hdigit : (spanSign s).2.head?.any Char.isDigit = true
        · rw [if_pos hdigit] at h ⊢
          rw [if_pos hdigit, span_append h.ne_nil]
        · rw [if_neg hdigit, if_neg hdigit]
          rfl
      · rw [if_neg he, if_neg he]
        rfl

theorem spanNumber_text (s : List Char) : (spanNumber s).1 ++ (spanNumber s).2 = s := by
  simp only [spanNumber, List.append_assoc, spanExponent_text, spanFraction_text, span_text,
    spanSign_text]

theorem spanNumber_append (h : Settles (spanNumber s).2) (w : List Char) :
    spanNumber (s ++ w) = ((spanNumber s).1, (spanNumber s).2 ++ w) := by
  simp only [spanNumber] at h
  -- each part is read with what comes behind it in place
  have hexponent : Settles (spanFraction ((spanSign s).2.span Char.isDigit).2).2 :=
    h.of_text (spanExponent_text _)
  have hfraction : Settles ((spanSign s).2.span Char.isDigit).2 :=
    hexponent.of_text (spanFraction_text _)
  have hsign : s ≠ [] := by
    rintro rfl
    exact hfraction.ne_nil rfl
  simp only [spanNumber, spanSign_append hsign, span_append hfraction.ne_nil,
    spanFraction_append hexponent, spanExponent_append h]

theorem startsNumber_eq (s : List Char) : startsNumber s = startsDigits (spanSign s).2 := by
  unfold startsNumber spanSign
  split <;> rfl

/-- A number is not empty. -/
theorem spanNumber_ne_nil (h : startsNumber s = true) : (spanNumber s).1 ≠ [] := by
  rw [startsNumber_eq] at h
  intro hnil
  simp only [spanNumber, List.append_eq_nil_iff] at hnil
  obtain ⟨⟨⟨-, hwhole⟩, hfraction⟩, -⟩ := hnil
  rw [List.span_eq_takeWhile_dropWhile] at hwhole hfraction
  generalize (spanSign s).2 = t at *
  unfold startsDigits at h
  split at h
  · rename_i c u
    have hdrop : ('.' :: c :: u).dropWhile Char.isDigit = '.' :: c :: u := rfl
    dsimp only at hfraction
    rw [hdrop, spanFraction, if_pos h] at hfraction
    cases hfraction
  · dsimp only at hwhole
    rw [List.takeWhile_cons_of_pos h] at hwhole
    cases hwhole
  · cases h

/-! ## Names -/

/-- A name is not empty. -/
theorem spanName_ne_nil (h : startsName s = true) : (spanName s).1 ≠ [] := by
  fun_cases spanName s with
  | case1 c s hline => simp [startsName, isNameStart, startsEscape, hline] at h
  | case2 c s hline name rest heq => exact List.cons_ne_nil _ _
  | case3 c s hesc hname name rest heq => exact List.cons_ne_nil _ _
  | case4 c s hesc hname =>
      have hdash : c ≠ '-' := by
        rintro rfl
        exact hname (by decide)
      have hstart : isNameStart c = false := by
        simp only [isNameChar, Bool.or_eq_true, not_or, Bool.not_eq_true] at hname
        exact hname.1.1
      have hescape : startsEscape (c :: s) = false := by
        unfold startsEscape
        split
        · rename_i d t heq
          obtain ⟨rfl, rfl⟩ := List.cons.inj heq
          exact absurd rfl (hesc d t rfl)
        · rfl
      rw [startsName_of_ne hdash, hstart, hescape] at h
      cases h
  | case5 => cases h

end StaticStyle.Css
