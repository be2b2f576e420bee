import StaticStyle.Proofs.Css.TokenParts

/-!
# Cutting a stylesheet between its tokens

A text that ends with a semicolon, a brace or a complete comment as its last token is cut
into tokens as it stands, whatever follows it (`tokens_append`).  Blanks at the start of a
text are at most one token (`exists_tokens_dropWhile`).
-/

namespace StaticStyle.Css

variable {c : Char} {s w : List Char}

/-! ## The first token -/

theorem numberToken_text (s : List Char) : (numberToken s).1.text ++ (numberToken s).2 = s := by
  have hnumber := spanNumber_text s
  unfold numberToken
  dsimp only
  split
  · rename_i rest heq
    rw [heq] at hnumber
    rw [List.append_assoc]
    exact hnumber
  · split
    · rw [List.append_assoc, spanName_text, hnumber]
    · exact hnumber

theorem numberToken_of_percent {rest : List Char} (h : (spanNumber s).2 = '%' :: rest) :
    numberToken s = (⟨.number, (spanNumber s).1 ++ ['%']⟩, rest) := by
  simp [numberToken, h]

theorem numberToken_of_ne {rest : List Char} (h : (spanNumber s).2 = c :: rest) (hc : c ≠ '%') :
    numberToken s =
      if startsName (c :: rest) then
        (⟨.number, (spanNumber s).1 ++ (spanName (c :: rest)).1⟩, (spanName (c :: rest)).2)
      else (⟨.number, (spanNumber s).1⟩, c :: rest) := by
  simp [numberToken, h, hc]

theorem numberToken_append (h : Settles (numberToken s).2) (w : List Char) :
    numberToken (s ++ w) = ((numberToken s).1, (numberToken s).2 ++ w) := by
  have hrest : Settles (spanNumber s).2 := by
    unfold numberToken at h
    dsimp only at h
    split at h
    · rename_i rest heq
      exact heq ▸ h.append_left ['%']
    · split at h
      · exact h.of_text (spanName_text _)
      · exact h
  have hnumber := spanNumber_append hrest w
  obtain ⟨c, rest, heq⟩ := List.exists_cons_of_ne_nil hrest.ne_nil
  have hlong : (spanNumber (s ++ w)).2 = c :: (rest ++ w) := by rw [hnumber, heq]; rfl
  by_cases hc : c = '%'
  · subst hc
    rw [numberToken_of_percent heq, numberToken_of_percent hlong, hnumber]
  · rw [numberToken_of_ne heq hc] at h ⊢
    rw [numberToken_of_ne hlong hc, hnumber]
    rw [heq] at hrest
    dsimp only
    rw [← List.cons_append, startsName_append hrest]
    by_cases hname : startsName (c :: rest) = true
    · rw [if_pos hname] at h ⊢
      rw [if_pos hname, spanName_append h]
    · rw [if_neg hname, if_neg hname]

theorem isQuoted_append (h : s.dropWhile isBlank ≠ []) (w : List Char) :
    isQuoted (s ++ w) = isQuoted s := by
  obtain ⟨c, t, heq⟩ := List.exists_cons_of_ne_nil h
  have hdrop : (s ++ w).dropWhile isBlank = c :: (t ++ w) := by
    rw [List.dropWhile_append, if_neg (by rw [List.isEmpty_iff]; exact h), heq]
    rfl
  unfold isQuoted
  rw [hdrop, heq]
  by_cases hdouble : c = '"'
  · subst hdouble
    rfl
  · by_cases hsingle : c = '\''
    · subst hsingle
      rfl
    · simp [hdouble, hsingle]

theorem nameToken_text (s : List Char) : (nameToken s).1.text ++ (nameToken s).2 = s := by
  have hname := spanName_text s
  unfold nameToken
  dsimp only
  split
  · rename_i rest heq
    rw [heq] at hname
    split
    · rw [List.append_assoc, List.cons_append, spanUrl_text, hname]
    · rw [List.append_assoc]
      exact hname
  · exact hname

theorem nameToken_of_paren {rest : List Char} (h : (spanName s).2 = '(' :: rest) :
    nameToken s =
      if (spanName s).1.map Char.toLower == "url".toList && !isQuoted rest then
        (⟨if isCleanUrl (spanUrl rest).1 then .url else .badUrl,
            (spanName s).1 ++ '(' :: (spanUrl rest).1⟩, (spanUrl rest).2)
      else (⟨.function, (spanName s).1 ++ ['(']⟩, rest) := by
  simp [nameToken, h]

theorem nameToken_of_ne {rest : List Char} (h : (spanName s).2 = c :: rest) (hc : c ≠ '(') :
    nameToken s = (⟨.ident, (spanName s).1⟩, c :: rest) := by
  simp [nameToken, h, hc]

theorem nameToken_append (h : Settles (nameToken s).2) (w : List Char) :
    nameToken (s ++ w) = ((nameToken s).1, (nameToken s).2 ++ w) := by
  have hrest : Settles (spanName s).2 := by
    unfold nameToken at h
    dsimp only at h
    split at h
    · rename_i rest heq
      rw [heq]
      split at h
      · exact (h.of_text (spanUrl_text rest)).append_left ['(']
      · exact h.append_left ['(']
    · exact h
  have hname := spanName_append hrest w
  obtain ⟨c, rest, heq⟩ := List.exists_cons_of_ne_nil hrest.ne_nil
  have hlong : (spanName (s ++ w)).2 = c :: (rest ++ w) := by rw [hname, heq]; rfl
  by_cases hc : c = '('
  · subst hc
    rw [nameToken_of_paren heq] at h ⊢
    rw [nameToken_of_paren hlong, hname]
    dsimp only
    cases hurl : (spanName s).1.map Char.toLower == "url".toList with
    | false => rfl
    | true =>
        -- an address goes on behind blanks, so what decides it is there already
        have hdrop : rest.dropWhile isBlank ≠ [] := by
          intro hnil
          have hquoted : isQuoted rest = false := by rw [isQuoted, hnil]
          rw [hurl, hquoted] at h
          exact h.ne_nil (spanUrl_of_blanks (List.dropWhile_eq_nil_iff.mp hnil))
        rw [isQuoted_append hdrop]
        cases hquoted : isQuoted rest with
        | true => rfl
        | false =>
            rw [hurl, hquoted] at h
            simp only [Bool.not_false, Bool.and_true, if_true] at h ⊢
            rw [spanUrl_append h.ne_nil]
  · rw [nameToken_of_ne heq hc, nameToken_of_ne hlong hc, hname]
    rfl


theorem otherToken_text (c : Char) (s : List Char) :
    (otherToken c s).1.text ++ (otherToken c s).2 = c :: s := by
  unfold otherToken
  split
  · exact numberToken_text _
  · split
    · exact nameToken_text _
    · split
      · exact congrArg (c :: ·) (spanName_text s)
      · split
        · exact congrArg (c :: ·) (spanName_text s)
        · rfl

theorem firstToken_text (c : Char) (s : List Char) :
    (firstToken c s).1.text ++ (firstToken c s).2 = c :: s := by
  unfold firstToken
  split
  · exact congrArg (c :: ·) (span_text isBlank s)
  · split
    · exact congrArg (c :: ·) (spanString_text c s)
    · split
      · exact congrArg ('/' :: '*' :: ·) (spanComment_text _)
      · rfl
      · rfl
      · exact otherToken_text c s

theorem numberToken_ne_nil (h : startsNumber s = true) : (numberToken s).1.text ≠ [] := by
  have hdigits := spanNumber_ne_nil h
  unfold numberToken
  dsimp only
  split
  · exact List.append_ne_nil_of_left_ne_nil hdigits _
  · split
    · exact List.append_ne_nil_of_left_ne_nil hdigits _
    · exact hdigits

theorem nameToken_ne_nil (h : startsName s = true) : (nameToken s).1.text ≠ [] := by
  have hname := spanName_ne_nil h
  unfold nameToken
  dsimp only
  split
  · split <;> exact List.append_ne_nil_of_left_ne_nil hname _
  · exact hname

theorem otherToken_ne_nil (c : Char) (s : List Char) : (otherToken c s).1.text ≠ [] := by
  unfold otherToken
  split
  · exact numberToken_ne_nil ‹_›
  · split
    · exact nameToken_ne_nil ‹_›
    · split
      · exact List.cons_ne_nil _ _
      · split <;> exact List.cons_ne_nil _ _

theorem firstToken_ne_nil (c : Char) (s : List Char) : (firstToken c s).1.text ≠ [] := by
  unfold firstToken
  split
  · exact List.cons_ne_nil _ _
  · split
    · exact List.cons_ne_nil _ _
    · split
      · exact List.cons_ne_nil _ _
      · exact List.cons_ne_nil _ _
      · exact List.cons_ne_nil _ _
      · exact otherToken_ne_nil c s

/-- A token takes at least the first character. -/
theorem exists_of_text {text rest : List Char} (h : text ++ rest = c :: s) (hne : text ≠ []) :
    ∃ t, text = c :: t ∧ t ++ rest = s := by
  obtain ⟨d, t, rfl⟩ := List.exists_cons_of_ne_nil hne
  obtain ⟨rfl, htail⟩ := List.cons.inj h
  exact ⟨t, rfl, htail⟩

theorem length_firstToken_le (c : Char) (s : List Char) : (firstToken c s).2.length ≤ s.length := by
  obtain ⟨t, -, htail⟩ := exists_of_text (firstToken_text c s) (firstToken_ne_nil c s)
  have hlength := congrArg List.length htail
  rw [List.length_append] at hlength
  omega

/-- The tokens that stay as they are whatever follows them: a semicolon, a brace and a
complete comment. -/
def Token.isComplete (t : Token) : Bool :=
  match t.kind with
  | .semicolon => true
  | .opening c => isSolid c
  | .closing c => isSolid c
  | .outerComment => true
  | .comment => ['*', '/'].isSuffixOf (t.text.drop 2)
  | _ => false

theorem isSolid_of_isComplete {text : List Char} (h : (Token.mk (charKind c) text).isComplete = true) :
    isSolid c = true := by
  unfold charKind at h
  split at h
  · cases h
  · split at h
    · rename_i hc
      rw [beq_iff_eq.mp hc]
      rfl
    · split at h
      · cases h
      · split at h
        · exact h
        · split at h
          · exact h
          · cases h

theorem otherToken_of_solid (h : isSolid c = true) (s : List Char) :
    otherToken c s = (⟨charKind c, [c]⟩, s) := by
  rcases isSolid_iff.mp h with rfl | rfl | rfl <;> rfl

theorem not_isComplete_numberToken (s : List Char) : (numberToken s).1.isComplete = false := by
  unfold numberToken
  dsimp only
  split
  · rfl
  · split <;> rfl

theorem not_isComplete_nameToken (s : List Char) : (nameToken s).1.isComplete = false := by
  unfold nameToken
  dsimp only
  split
  · split
    · dsimp only
      cases isCleanUrl _ <;> rfl
    · rfl
  · rfl

theorem isSolid_of_otherToken (h : (otherToken c s).1.isComplete = true) : isSolid c = true := by
  unfold otherToken at h
  split at h
  · rw [not_isComplete_numberToken] at h
    cases h
  · split at h
    · rw [not_isComplete_nameToken] at h
      cases h
    · split at h
      · cases h
      · split at h
        · cases h
        · exact isSolid_of_isComplete h

theorem otherToken_append
    (h : Settles (otherToken c s).2 ∨ (otherToken c s).1.isComplete = true) (w : List Char) :
    otherToken c (s ++ w) = ((otherToken c s).1, (otherToken c s).2 ++ w) := by
  by_cases hsolid : isSolid c = true
  · rw [otherToken_of_solid hsolid, otherToken_of_solid hsolid]
  · have hrest : Settles (otherToken c s).2 :=
      h.resolve_right fun hcomplete => hsolid (isSolid_of_otherToken hcomplete)
    obtain ⟨t, -, htail⟩ := exists_of_text (otherToken_text c s) (otherToken_ne_nil c s)
    have hs : Settles s := hrest.of_text htail
    have hall : Settles (c :: s) := hs.append_left [c]
    unfold otherToken at hrest ⊢
    rw [← List.cons_append, startsNumber_append hall, startsName_append hall,
      startsName_append hs, startsEscape_append hs, head?_append hs.ne_nil]
    by_cases hnumber : startsNumber (c :: s) = true
    · rw [if_pos hnumber] at hrest ⊢
      rw [if_pos hnumber, numberToken_append hrest]
    · rw [if_neg hnumber] at hrest ⊢
      rw [if_neg hnumber]
      by_cases hname : startsName (c :: s) = true
      · rw [if_pos hname] at hrest ⊢
        rw [if_pos hname, nameToken_append hrest]
      · rw [if_neg hname] at hrest ⊢
        rw [if_neg hname]
        split
        · rename_i hat
          rw [if_pos hat] at hrest
          rw [spanName_append hrest]
        · rename_i hat
          rw [if_neg hat] at hrest
          split
          · rename_i hhash
            rw [if_pos hhash] at hrest
            rw [spanName_append hrest]
          · rfl

theorem suffix_of_isComplete {text : List Char}
    (h : (Token.mk .comment ('/' :: '*' :: text)).isComplete = true) :
    ∃ body, text = body ++ ['*', '/'] := by
  obtain ⟨body, hbody⟩ := List.isSuffixOf_iff_suffix.mp h
  exact ⟨body, hbody.symm⟩

/-- A text that starts with a complete token settles the token in front of it. -/
theorem settles_of_isComplete (h : (firstToken c s).1.isComplete = true) : Settles (c :: s) := by
  unfold firstToken at h
  split at h
  · cases h
  · split at h
    · dsimp only at h
      cases hgood : (spanString c s).1 <;> rw [hgood] at h <;> cases h
    · split at h
      · rename_i rest _ _
        obtain ⟨body, hbody⟩ := suffix_of_isComplete h
        have hlength := congrArg List.length (spanComment_text rest)
        rw [hbody, List.length_append, List.length_append] at hlength
        refine Or.inl ?_
        simp only [List.length_cons, List.length_nil] at hlength ⊢
        omega
      · exact Or.inl (by simp)
      · exact Or.inl (by simp)
      · exact Or.inr ⟨c, List.mem_cons_self, isSolid_of_otherToken h⟩

/-- What starts no comment starts none with a text behind it either. -/
theorem settles_of_otherToken
    (h : Settles (otherToken c s).2 ∨ (otherToken c s).1.isComplete = true) :
    Settles s ∨ isSolid c = true := by
  refine h.imp (fun hrest => ?_) isSolid_of_otherToken
  obtain ⟨t, -, htail⟩ := exists_of_text (otherToken_text c s) (otherToken_ne_nil c s)
  exact hrest.of_text htail

theorem firstToken_append
    (h : Settles (firstToken c s).2 ∨ (firstToken c s).1.isComplete = true) (w : List Char) :
    firstToken c (s ++ w) = ((firstToken c s).1, (firstToken c s).2 ++ w) := by
  unfold firstToken at h ⊢
  by_cases hblank : isBlank c = true
  · rw [if_pos hblank] at h ⊢
    rw [if_pos hblank]
    have hrest := h.resolve_right Bool.false_ne_true
    rw [span_append hrest.ne_nil]
  · rw [if_neg hblank] at h ⊢
    rw [if_neg hblank]
    by_cases hquote : (c == '"' || c == '\'') = true
    · rw [if_pos hquote] at h ⊢
      rw [if_pos hquote]
      have hrest : Settles (spanString c s).2.2 := by
        refine h.resolve_right fun hcomplete => ?_
        dsimp only at hcomplete
        cases hgood : (spanString c s).1 <;> rw [hgood] at hcomplete <;> cases hcomplete
      rw [spanString_append hrest.ne_nil]
    · rw [if_neg hquote] at h ⊢
      rw [if_neg hquote]
      split at h
      · rename_i rest
        rw [List.cons_append]
        change (Token.mk .comment ('/' :: '*' :: (spanComment (rest ++ w)).1),
          (spanComment (rest ++ w)).2) = _
        rw [spanComment_append (h.imp Settles.ne_nil suffix_of_isComplete)]
      · rfl
      · rfl
      · rename_i hcomment hopen hclose
        have hs := settles_of_otherToken h
        have hshort : ∀ short rest, s ++ w = short ++ rest → short.length ≤ 3 →
            (short.all fun c => !isSolid c) = true → isSolid c = false → ∃ t, s = short ++ t := by
          intro short rest heq hlength hplain hc
          rw [hc] at hs
          exact (hs.resolve_right Bool.false_ne_true).exists_append heq hlength hplain
        split
        · rename_i heq
          obtain ⟨t, rfl⟩ := hshort ['*'] _ heq (by decide) rfl rfl
          exact (hcomment t rfl rfl).elim
        · rename_i heq
          obtain ⟨t, rfl⟩ := hshort ['!', '-', '-'] _ heq (by decide) rfl rfl
          exact (hopen t rfl rfl).elim
        · rename_i heq
          obtain ⟨t, rfl⟩ := hshort ['-', '>'] _ heq (by decide) rfl rfl
          exact (hclose t rfl rfl).elim
        · exact otherToken_append h w

/-! ## Rows of tokens -/

theorem tokensWithin_eq {count count' : Nat} (h : s.length ≤ count) (h' : s.length ≤ count') :
    tokensWithin count s = tokensWithin count' s := by
  induction count generalizing count' s with
  | zero =>
      rw [List.eq_nil_of_length_eq_zero (Nat.le_zero.mp h)]
      cases count' <;> rfl
  | succ count ih =>
      cases s with
      | nil => cases count' <;> rfl
      | cons c s =>
          cases count' with
          | zero => exact absurd h' (by simp)
          | succ count' =>
              have hle := length_firstToken_le c s
              rw [List.length_cons] at h h'
              have hrest : tokensWithin count (firstToken c s).2 = tokensWithin count' (firstToken c s).2 :=
                ih (by omega) (by omega)
              exact congrArg ((firstToken c s).1 :: ·) hrest

@[simp]
theorem tokens_nil : tokens [] = [] := rfl

theorem tokens_cons (c : Char) (s : List Char) :
    tokens (c :: s) = (firstToken c s).1 :: tokens (firstToken c s).2 :=
  congrArg ((firstToken c s).1 :: ·) (tokensWithin_eq (length_firstToken_le c s) le_rfl)

/-- A property of texts holds if it holds of the empty one and goes from the rest behind the
first token to the whole. -/
theorem tokens_induction {P : List Char → Prop} (nil : P [])
    (cons : ∀ c s, P (firstToken c s).2 → P (c :: s)) (s : List Char) : P s := by
  induction hlength : s.length using Nat.strong_induction_on generalizing s with
  | h length ih =>
      cases s with
      | nil => exact nil
      | cons c s =>
          have hle := length_firstToken_le c s
          rw [List.length_cons] at hlength
          exact cons c s (ih _ (by omega) _ rfl)

/-- A text has at most as many tokens as characters. -/
theorem length_tokens_le (s : List Char) : (tokens s).length ≤ s.length := by
  induction s using tokens_induction with
  | nil => exact le_rfl
  | cons c s ih =>
      have hle := length_firstToken_le c s
      rw [tokens_cons, List.length_cons, List.length_cons]
      omega

/-- Whether a text ends behind a complete token, or is empty. -/
def endsComplete (s : List Char) : Bool := (tokens s).getLast?.all Token.isComplete

theorem settles_of_mem_tokens {t : Token} (ht : t ∈ tokens s) (h : t.isComplete = true) :
    Settles s := by
  induction s using tokens_induction with
  | nil => cases ht
  | cons c s ih =>
      rw [tokens_cons] at ht
      rcases List.mem_cons.mp ht with rfl | ht
      · exact settles_of_isComplete h
      · exact (ih ht).of_text (firstToken_text c s)

theorem endsComplete_cons (h : endsComplete (c :: s) = true) :
    (Settles (firstToken c s).2 ∨ (firstToken c s).1.isComplete = true) ∧
      endsComplete (firstToken c s).2 = true := by
  unfold endsComplete at h ⊢
  rw [tokens_cons] at h
  cases hrest : (tokens (firstToken c s).2) with
  | nil =>
      rw [hrest] at h
      exact ⟨Or.inr h, rfl⟩
  | cons t ts =>
      rw [hrest, List.getLast?_cons_cons] at h
      have hne := List.cons_ne_nil t ts
      rw [← hrest] at h hne
      rw [← hrest]
      refine ⟨Or.inl ?_, h⟩
      rw [List.getLast?_eq_some_getLast hne] at h
      exact settles_of_mem_tokens (List.getLast_mem hne) h

/-- Behind a complete token a text is cut as if it stood alone. -/
theorem tokens_append (h : endsComplete s = true) (w : List Char) :
    tokens (s ++ w) = tokens s ++ tokens w := by
  induction s using tokens_induction with
  | nil => rfl
  | cons c s ih =>
      obtain ⟨hfirst, hrest⟩ := endsComplete_cons h
      rw [List.cons_append, tokens_cons, firstToken_append hfirst, tokens_cons, ih hrest]
      rfl

theorem firstToken_of_blank (h : isBlank c = true) (s : List Char) :
    firstToken c s = (⟨.blank, c :: s.takeWhile isBlank⟩, s.dropWhile isBlank) := by
  unfold firstToken
  rw [if_pos h, List.span_eq_takeWhile_dropWhile]

/-- Blanks in front of a text are at most one token in front of those of the rest. -/
theorem exists_tokens_dropWhile (s : List Char) :
    ∃ blanks, (∀ t ∈ blanks, t.kind = .blank) ∧
      tokens s = blanks ++ tokens (s.dropWhile isBlank) := by
  cases s with
  | nil => exact ⟨[], fun _ ht => absurd ht List.not_mem_nil, rfl⟩
  | cons c s =>
      by_cases hblank : isBlank c = true
      · refine ⟨[(firstToken c s).1], ?_, ?_⟩
        · intro t ht
          rw [List.mem_singleton.mp ht, firstToken_of_blank hblank]
        · rw [tokens_cons, firstToken_of_blank hblank, List.dropWhile_cons_of_pos hblank]
          rfl
      · rw [List.dropWhile_cons_of_neg hblank]
        exact ⟨[], fun _ ht => absurd ht List.not_mem_nil, rfl⟩

end StaticStyle.Css
