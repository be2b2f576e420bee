import StaticStyle.Proofs.Css.Names
import StaticStyle.Proofs.Css.Places
import StaticStyle.Proofs.Sheet.Directives

/-!
# Directives that end by themselves

A directive with a plain name is an at-rule without a block: it ends with its semicolon, wherever it
stands (`isWhole_directive`).  Blank characters outside ASCII that stand in front of the
semicolon go on with the name, but nothing that they are read as could keep the at-rule open.
-/

namespace StaticStyle.Css

open Component

variable {place : Place} {s : List Char} {c : Char}

/-! ## At-rules without a block -/

theorem openItem_of_ended {level : Level} {c : Component} {rest : List Component}
    (hfiller : isFiller level c = false) (hended : hasEnded level c rest = true)
    (hnext : (nextItem level c rest).2 = []) : openItem level (c :: rest) = [] := by
  rw [openItem, openItemWithin, List.dropWhile_cons_of_neg (by rw [hfiller]; exact Bool.false_ne_true)]
  dsimp only
  rw [if_pos hended, hnext]
  rfl

/-- An at-rule ends with its semicolon. -/
theorem openItem_atRule {name semicolon : Token} {params : List Component}
    (hname : name.kind = .atKeyword)
    (hparams : (params.all fun d => !isBraces d && !isEnd d) = true)
    (hsemicolon : semicolon.kind = .semicolon) (level : Level) :
    openItem level (.token name :: (params ++ [.token semicolon])) = [] := by
  have hend : isEnd (.token semicolon) = true := by simp [isEnd, isToken, kind?, hsemicolon]
  have hstop : (!isBraces (.token semicolon) && !isEnd (.token semicolon)) = false := by
    rw [hend, Bool.not_true, Bool.and_false]
  have hkeyword : (name.kind == .atKeyword) = true := beq_iff_eq.mpr hname
  have hnext : nextItem level (.token name) (params ++ [.token semicolon]) =
      (.atRule name (trim params) none, []) := by
    unfold nextItem atItem
    dsimp only
    rw [if_pos hkeyword, span_of_stop hparams hstop]
  refine openItem_of_ended ?_ ?_ (by rw [hnext])
  · cases level <;> simp [isFiller, isGap, isEnd, isToken, kind?, hname]
  · rw [hasEnded, hnext, goesOn, if_pos hkeyword, List.all_append, List.all_cons, hstop]
    simp [Item.isBroken]

/-- A token is no bracket and no semicolon. -/
def Token.IsPlain (t : Token) : Prop :=
  isClosing t.kind = false ∧ closer? t.kind = none ∧ t.kind ≠ .semicolon

/-- An at-rule without brackets ends by itself with its semicolon. -/
theorem isWhole_atRule {name semicolon : Token} {params : List Token}
    (htokens : tokens s = name :: (params ++ [semicolon])) (hname : name.kind = .atKeyword)
    (hparams : ∀ t ∈ params, t.IsPlain)
    (hsemicolon : semicolon.kind = .semicolon) (hend : s.rdropWhile isBlank = s) (place : Place) :
    isWhole place s = true := by
  have hends : endsComplete s = true := by
    rw [endsComplete, htokens, ← List.cons_append, List.getLast?_concat, Option.all_some,
      Token.isComplete, hsemicolon]
  have hflat : ∀ t ∈ tokens s, isClosing t.kind = false ∧ closer? t.kind = none := by
    intro t ht
    rw [htokens] at ht
    rcases List.mem_cons.mp ht with rfl | ht
    · rw [hname]
      exact ⟨rfl, rfl⟩
    · rcases List.mem_append.mp ht with ht | ht
      · exact ⟨(hparams t ht).1, (hparams t ht).2.1⟩
      · rw [List.mem_singleton.mp ht, hsemicolon]
        exact ⟨rfl, rfl⟩
  have hstate := follow?_of_flat hflat [] []
  rw [List.append_nil] at hstate
  have hclosed : isClosedAt place ((tokens s).map Component.token) = true := by
    cases place with
    | item level =>
        rw [isClosedAt, List.isEmpty_iff, htokens, List.map_cons, List.map_append]
        refine openItem_atRule hname (List.all_eq_true.mpr fun d hd => ?_) hsemicolon level
        obtain ⟨t, ht, rfl⟩ := List.mem_map.mp hd
        simp [isBraces, isEnd, isToken, kind?, (hparams t ht).2.2]
    | tokens | anything => rfl
  rw [isWhole, stateOf?, hend, if_pos hends, hstate]
  dsimp only
  rw [List.reverse_reverse]
  exact hclosed

/-! ## Blank characters in front of a semicolon -/

/-- A blank character is a blank of a stylesheet, the vertical tab or not in ASCII. -/
theorem blank_cases (h : Text.isBlank c = true) :
    isBlank c = true ∨ c = '\x0b' ∨ 0x80 ≤ c.toNat := by
  simp only [Text.isBlank, Text.blankRanges, List.any_cons, List.any_nil, Bool.or_false,
    Bool.or_eq_true, Bool.and_eq_true, decide_eq_true_eq] at h
  by_cases hascii : c.toNat < 0x80
  · have hc : c = Char.ofNat c.toNat := (Char.ofNat_toNat c).symm
    have hcode : c.toNat = 9 ∨ c.toNat = 10 ∨ c.toNat = 11 ∨ c.toNat = 12 ∨ c.toNat = 13 ∨
        c.toNat = 32 := by omega
    rcases hcode with hcode | hcode | hcode | hcode | hcode | hcode <;> rw [hcode] at hc <;>
      subst hc <;> decide
  · exact Or.inr (Or.inr (by omega))

theorem dropWhile_concat_of_neg {α : Type} {p : α → Bool} {a : α} (h : p a = false) (s : List α) :
    (s ++ [a]).dropWhile p = s.dropWhile p ++ [a] := by
  have hneg : ¬ p a = true := by rw [h]; exact Bool.false_ne_true
  rw [List.dropWhile_append]
  split
  · rename_i hnil
    rw [List.isEmpty_iff.mp hnil, List.dropWhile_cons_of_neg hneg]
    rfl
  · rfl

/-- The first token of some blank characters in front of a semicolon is plain. -/
theorem firstToken_blank_plain (hc : Text.isBlank c = true) (hs : ∀ d ∈ s, Text.isBlank d = true) :
    (firstToken c (s ++ [';'])).1.IsPlain ∧
      ∃ s', s' <:+ s ∧ (firstToken c (s ++ [';'])).2 = s' ++ [';'] := by
  rcases blank_cases hc with hblank | rfl | hwide
  · rw [firstToken_of_blank hblank, dropWhile_concat_of_neg rfl]
    exact ⟨⟨rfl, rfl, TokenKind.noConfusion⟩, _, List.dropWhile_suffix _, rfl⟩
  · exact ⟨⟨rfl, rfl, TokenKind.noConfusion⟩, s, List.suffix_rfl, rfl⟩
  · have hescape : '\\' ∉ c :: (s ++ [';']) := by
      intro hmem
      rcases List.mem_cons.mp hmem with rfl | hmem
      · exact absurd hwide (by decide)
      · rcases List.mem_append.mp hmem with hmem | hmem
        · exact absurd (hs _ hmem) (by decide)
        · exact absurd hmem (by decide)
    have hname : isNameChar c = true := by
      rw [isNameChar, isNameStart, decide_eq_true hwide, Bool.or_true, Bool.true_or, Bool.true_or]
    have hspan : (spanName (c :: (s ++ [';']))).2 = s.dropWhile isNameChar ++ [';'] := by
      rw [spanName_of_no_escape hescape, List.dropWhile_cons_of_pos hname,
        dropWhile_concat_of_neg rfl]
    rw [firstToken_of_not_ascii hwide]
    cases hdrop : s.dropWhile isNameChar with
    | nil =>
        rw [hdrop] at hspan
        rw [nameToken_of_ne hspan (by decide)]
        exact ⟨⟨rfl, rfl, TokenKind.noConfusion⟩, [], List.nil_suffix, rfl⟩
    | cons d rest =>
        have hsuffix := List.dropWhile_suffix isNameChar (l := s)
        rw [hdrop] at hspan hsuffix
        have hparen : d ≠ '(' := by
          rintro rfl
          exact absurd (hs _ (hsuffix.subset List.mem_cons_self)) (by decide)
        rw [nameToken_of_ne hspan hparen]
        exact ⟨⟨rfl, rfl, TokenKind.noConfusion⟩, d :: rest, hsuffix, rfl⟩

/-- Blank characters up to a semicolon are plain tokens. -/
theorem exists_tokens_blanks (h : ∀ c ∈ s, Text.isBlank c = true) :
    ∃ params, tokens (s ++ [';']) = params ++ [⟨.semicolon, [';']⟩] ∧ ∀ t ∈ params, t.IsPlain := by
  induction hlength : s.length using Nat.strong_induction_on generalizing s with
  | h length ih =>
      cases s with
      | nil => exact ⟨[], rfl, fun t ht => absurd ht List.not_mem_nil⟩
      | cons c s =>
          obtain ⟨hplain, s', hsuffix, hrest⟩ := firstToken_blank_plain (h c List.mem_cons_self)
            fun d hd => h d (List.mem_cons_of_mem c hd)
          have hle := hsuffix.length_le
          rw [List.length_cons] at hlength
          obtain ⟨params, htokens, hparams⟩ := ih s'.length (by omega)
            (fun d hd => h d (List.mem_cons_of_mem c (hsuffix.subset hd))) rfl
          refine ⟨(firstToken c (s ++ [';'])).1 :: params, ?_,
            List.forall_mem_cons.mpr ⟨hplain, hparams⟩⟩
          rw [List.cons_append, tokens_cons, hrest, htokens]
          rfl

/-- An at-rule with a plain name is one token for the name and plain tokens for the blanks behind
it. -/
theorem exists_tokens_directive {name blanks : List Char} (hname : isPlainName name = true)
    (h : ∀ c ∈ blanks, Text.isBlank c = true) :
    ∃ text params, tokens ('@' :: (name ++ blanks ++ [';'])) =
      ⟨.atKeyword, text⟩ :: (params ++ [⟨.semicolon, [';']⟩]) ∧ ∀ t ∈ params, t.IsPlain := by
  have hall := (isPlainName_iff.mp hname).2
  have hescape : '\\' ∉ blanks ++ [';'] := by
    intro hmem
    rcases List.mem_append.mp hmem with hmem | hmem
    · exact absurd (h _ hmem) (by decide)
    · exact absurd hmem (by decide)
  have hspan : (spanName (name ++ blanks ++ [';'])).2 = blanks.dropWhile isNameChar ++ [';'] := by
    rw [List.append_assoc, spanName_append_of_all hall, spanName_of_no_escape hescape,
      dropWhile_concat_of_neg rfl]
  have hstart : startsName (name ++ blanks ++ [';']) = true := by
    rw [List.append_assoc]
    exact startsName_append_of_plain hname _
  obtain ⟨params, htokens, hparams⟩ := exists_tokens_blanks fun c hc =>
    h c ((List.dropWhile_suffix isNameChar).subset hc)
  refine ⟨'@' :: (spanName (name ++ blanks ++ [';'])).1, params, ?_, hparams⟩
  rw [tokens_cons, firstToken_at hstart, hspan, htokens]

end StaticStyle.Css

namespace StaticStyle.Sheet

open StaticStyle.Css (Place isPlainName isWhole)

/-- A directive with a plain name ends by itself, unless it ends with the text. -/
theorem isWhole_directive {name directive after : List Char} (hname : isPlainName name = true)
    (h : IsDirective name directive after) (place : Place) :
    isWhole place directive = true ∨ after = [] := by
  cases h with
  | closed hblanks =>
      rename_i blanks
      obtain ⟨text, params, htokens, hparams⟩ := Css.exists_tokens_directive hname hblanks
      have hend : ('@' :: (name ++ blanks ++ [';'])).rdropWhile Css.isBlank =
          '@' :: (name ++ blanks ++ [';']) := by
        rw [← List.cons_append]
        exact List.rdropWhile_concat_neg _ _ _ (by decide)
      exact Or.inl (Css.isWhole_atRule htokens rfl hparams rfl hend place)
  | atEnd => exact Or.inr rfl

end StaticStyle.Sheet
