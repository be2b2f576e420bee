import Mathlib.Data.List.Infix
import Mathlib.Data.List.TakeWhile
import Mathlib.Tactic.IntervalCases
import StaticStyle.Proofs.Syntax.Gap
import StaticStyle.Proofs.Text.Offset
import StaticStyle.Syntax.Grammar.Elements

/-!
# What tokens are made of

Scanning loses nothing: the lexeme of a token and the text after it are the text that was
scanned, in the first reading of a text (`scanToken_of`) and in the others.  What is
skipped in front of a token is a part of the source (`continues_of_skipGap`), and no blank
follows it.
-/

namespace StaticStyle.Syntax

open StaticStyle.Text (Continues isBlank)

variable {source s t a b rest digits lexeme : List Char} {c quote : Char} {n : Nat}

/-! ## Scans of a text -/

/-- The token of a scan is the front of a text, and the rest of the text stands after it.  A
mark is written as it is, and a word is not empty. -/
structure Scan.Of (s : List Char) (t : Scan) : Prop where
  text : t.lexeme ++ t.rest = s
  word : ∀ w e, t.token = .word w e → t.lexeme ≠ []
  mark : ∀ m, t.token = .mark m → t.lexeme = m.toList

/-- Whether a token is neither a word nor a mark. -/
def Token.isLiteral : Token → Bool
  | .word _ _ => false
  | .mark _ => false
  | _ => true

namespace Scan.Of

theorem literal {t : Scan} (ht : t.token.isLiteral = true) (h : t.lexeme ++ t.rest = s) :
    t.Of s where
  text := h
  word w e hw := by
    rw [hw] at ht
    cases ht
  mark m hm := by
    rw [hm] at ht
    cases ht

theorem ite {p : Bool} {t u : Scan} (ht : t.Of s) (hu : u.Of s) : (if p then t else u).Of s := by
  cases p with
  | false => exact hu
  | true => exact ht

end Scan.Of

theorem span_eq {p : Char → Bool} (h : s.span p = (a, b)) : a ++ b = s ∧ ∀ d ∈ a, p d = true := by
  rw [List.span_eq_takeWhile_dropWhile, Prod.mk.injEq] at h
  obtain ⟨rfl, rfl⟩ := h
  exact ⟨List.takeWhile_append_dropWhile, fun d hd => List.mem_takeWhile_imp hd⟩

/-- What stands in front of the end of a text. -/
theorem take_append_of_suffix (h : rest <:+ s) : s.take (s.length - rest.length) ++ rest = s := by
  obtain ⟨front, rfl⟩ := h
  rw [List.length_append, Nat.add_sub_cancel, List.take_left]

/-! ## Strings and templates -/

theorem append_of_splitString (h : splitString quote s = some (a, b)) :
    a ++ b = s ∧ ∃ r, b = quote :: r := by
  fun_induction splitString quote s generalizing a b with
  | case1 => cases h
  | case2 s ih =>
      obtain ⟨⟨a', b'⟩, hs, he⟩ := Option.map_eq_some_iff.mp h
      cases he
      exact ⟨by rw [← (ih hs).1]; rfl, (ih hs).2⟩
  | case3 c s _ ih =>
      obtain ⟨⟨a', b'⟩, hs, he⟩ := Option.map_eq_some_iff.mp h
      cases he
      exact ⟨by rw [← (ih hs).1]; rfl, (ih hs).2⟩
  | case4 c s _ _ hquote =>
      cases h
      exact ⟨rfl, s, by rw [beq_iff_eq.mp hquote]⟩
  | case5 => cases h
  | case6 c s _ _ _ _ ih =>
      obtain ⟨⟨a', b'⟩, hs, he⟩ := Option.map_eq_some_iff.mp h
      cases he
      exact ⟨by rw [← (ih hs).1]; rfl, (ih hs).2⟩

theorem scanString_of (quote : Char) (s : List Char) : (scanString quote s).Of (quote :: s) := by
  unfold scanString
  split
  · next body q rest hsplit =>
      obtain ⟨happend, r, hr⟩ := append_of_splitString hsplit
      cases hr
      rw [← happend]
      dsimp only
      split
      · exact .literal rfl (by simp)
      · exact .literal rfl (by simp)
  · exact .literal rfl rfl

theorem append_of_splitTemplate (h : splitTemplate s = some (a, b)) : a ++ b = s := by
  fun_induction splitTemplate s generalizing a b with
  | case1 => cases h
  | case2 c s ih =>
      obtain ⟨⟨a', b'⟩, hs, he⟩ := Option.map_eq_some_iff.mp h
      cases he
      rw [← ih hs]
      rfl
  | case3 s => cases h; rfl
  | case4 c s _ _ hquote => cases h; rfl
  | case5 c s _ _ _ ih =>
      obtain ⟨⟨a', b'⟩, hs, he⟩ := Option.map_eq_some_iff.mp h
      cases he
      rw [← ih hs]
      rfl

theorem scanTemplate_of (opening : Char) (s : List Char) :
    (scanTemplate opening s).Of (opening :: s) := by
  unfold scanTemplate
  dsimp only
  split
  · next body rest hsplit =>
      rw [← append_of_splitTemplate hsplit]
      exact .literal rfl (by simp)
  · next body rest hsplit =>
      rw [← append_of_splitTemplate hsplit]
      exact .literal rfl (by simp)
  · exact .literal rfl rfl

/-! ## Words -/

theorem suffix_of_readCodePoint (h : readCodePoint s = some (n, rest)) : rest <:+ s := by
  unfold readCodePoint at h
  split at h
  · next s =>
      dsimp only at h
      rcases hspan : s.span isHexDigit with ⟨digits, r⟩
      rw [hspan] at h
      dsimp only at h
      split at h
      · split at h
        · cases h
        · cases h
          rw [← (span_eq hspan).1]
          exact ⟨'\x7b' :: (digits ++ ['\x7d']), by simp⟩
      · cases h
  · split at h
    · cases h
      exact ⟨[_, _, _, _], rfl⟩
    · cases h
  · cases h

/-- A word is written with its lexeme, which is empty only if the word is. -/
theorem append_of_splitWord {fuel : Nat} {first : Bool} {letters : List Char}
    (h : splitWord fuel first s = some (letters, lexeme, rest)) :
    lexeme ++ rest = s ∧ (lexeme = [] → letters = []) := by
  induction fuel generalizing first s letters lexeme rest with
  | zero =>
      cases h
      exact ⟨rfl, fun _ => rfl⟩
  | succ fuel ih =>
      unfold splitWord at h
      generalize (if first then isIdStart else isIdPart) = letter at h
      dsimp only at h
      split at h
      · next t =>
          split at h
          · next code r hcode =>
              split at h
              · obtain ⟨⟨letters, lexeme', rest'⟩, hs, he⟩ := Option.map_eq_some_iff.mp h
                cases he
                refine ⟨?_, nofun⟩
                rw [List.append_assoc, (ih hs).1, List.cons_append, List.cons_append,
                  take_append_of_suffix (suffix_of_readCodePoint hcode)]
              · cases h
          · cases h
      · cases h
      · next c t _ _ =>
          split at h
          · obtain ⟨⟨letters, lexeme', rest'⟩, hs, he⟩ := Option.map_eq_some_iff.mp h
            cases he
            exact ⟨congrArg (c :: ·) (ih hs).1, nofun⟩
          · cases h
            exact ⟨rfl, fun _ => rfl⟩
      · cases h
        exact ⟨rfl, fun _ => rfl⟩

theorem scanWord_of (s : List Char) : (scanWord s).Of s := by
  unfold scanWord
  split
  · next hsplit =>
      obtain ⟨happend, hempty⟩ := append_of_splitWord hsplit
      exact ⟨happend, fun _ _ _ h => absurd (hempty h) nofun, nofun⟩
  · exact .literal rfl (List.take_append_drop 1 s)

/-! ## Numbers -/

theorem finishNumber_of (good : Bool) (h : lexeme ++ rest = s) :
    (finishNumber good lexeme rest).Of s := by
  subst h
  unfold finishNumber
  refine .ite (.literal rfl rfl) ?_
  split
  · exact .ite (.literal rfl (List.append_assoc _ _ _)) (.literal rfl rfl)
  · exact .ite (.literal rfl rfl) (.literal rfl rfl)

theorem splitDigits_append (base : Nat) (s : List Char) :
    (splitDigits base s).1 ++ (splitDigits base s).2 = s := by
  rw [splitDigits, List.span_eq_takeWhile_dropWhile]
  exact List.takeWhile_append_dropWhile

theorem splitExponent_append (s : List Char) :
    (splitExponent s).2.1 ++ (splitExponent s).2.2 = s := by
  unfold splitExponent
  split
  · next c t =>
      split
      · dsimp only
        split
        · next t => simpa using splitDigits_append 10 t
        · next t => simpa using splitDigits_append 10 t
        · simpa using splitDigits_append 10 t
      · rfl
  · rfl

theorem scanDecimal_of {whole : List Char} (h : whole ++ rest = s) :
    (scanDecimal whole rest).Of s := by
  unfold scanDecimal
  dsimp only
  split
  · next t =>
      have htext : whole ++ ['.'] ++ (splitDigits 10 t).1 ++
          (splitExponent (splitDigits 10 t).2).2.1 ++ (splitExponent (splitDigits 10 t).2).2.2 =
          s := by
        rw [List.append_assoc, splitExponent_append, List.append_assoc, splitDigits_append,
          List.append_assoc]
        exact h
      exact finishNumber_of _ htext
  · have htext : whole ++ [] ++ [] ++ (splitExponent rest).2.1 ++ (splitExponent rest).2.2 = s := by
      rw [List.append_assoc, splitExponent_append, List.append_nil, List.append_nil]
      exact h
    exact finishNumber_of _ htext

theorem scanUnmarked_of (s : List Char) : (scanUnmarked s).Of s :=
  .ite (finishNumber_of _ (splitDigits_append 10 s)) (scanDecimal_of (splitDigits_append 10 s))

theorem scanNumber_of (s : List Char) : (scanNumber s).Of s := by
  unfold scanNumber
  split
  · next c t =>
      split
      · next base _ =>
          exact finishNumber_of _ (congrArg ('0' :: c :: ·) (splitDigits_append base t))
      · exact scanUnmarked_of _
  · exact scanUnmarked_of s

/-! ## Marks -/

theorem scanMark_of (s : List Char) : (scanMark s).Of s := by
  unfold scanMark
  split
  · next m hm =>
      have hfound := List.find?_some hm
      rw [Bool.and_eq_true, List.isPrefixOf_iff_prefix] at hfound
      refine ⟨List.prefix_iff_eq_append.mp hfound.1, nofun, ?_⟩
      rintro _ ⟨⟩
      exact String.toList_ofList.symm
  · exact .literal rfl (List.take_append_drop 1 s)

/-- Where a mark starts with `>`, the longest one that does is found. -/
theorem scanShift_of (h : s = '>' :: t) : (scanShift s).Of s := by
  unfold scanShift
  generalize hfind : List.find? _ _ = found
  cases found with
  | none =>
      rw [List.find?_eq_none] at hfind
      have hmark := hfind ['>'] (by decide)
      rw [h] at hmark
      exact absurd rfl hmark
  | some m =>
      have hfound := List.find?_some hfind
      rw [List.isPrefixOf_iff_prefix] at hfound
      refine ⟨List.prefix_iff_eq_append.mp hfound, nofun, ?_⟩
      rintro _ ⟨⟩
      exact String.toList_ofList.symm

/-! ## Tokens -/

theorem scanToken_of (s : List Char) : (scanToken s).Of s := by
  unfold scanToken
  split
  · exact .literal rfl rfl
  · next c t =>
      refine .ite (scanString_of c t) (.ite (scanTemplate_of c t) (.ite (scanNumber_of _)
        (.ite (scanNumber_of _) (.ite ?_ (.ite (scanWord_of _) (scanMark_of _))))))
      have hword := (scanWord_of t).text
      split
      · next hscan =>
          rw [hscan] at hword
          exact .literal rfl (congrArg (c :: ·) hword)
      · next hscan =>
          rw [hscan] at hword
          exact .literal rfl (congrArg (c :: ·) hword)

/-! ## The other readings -/

theorem suffix_of_splitRegex {inClass : Bool} (h : splitRegex inClass s = some (a, b)) :
    b <:+ s := by
  fun_induction splitRegex inClass s generalizing a b with
  | case1 => cases h
  | case2 => cases h
  | case3 inClass c s _ ih =>
      obtain ⟨⟨a', b'⟩, hs, he⟩ := Option.map_eq_some_iff.mp h
      cases he
      exact (ih hs).trans ⟨['\\', c], rfl⟩
  | case4 => cases h
  | case5 inClass c s _ _ _ =>
      cases h
      exact ⟨[c], rfl⟩
  | case6 =>
      rename_i ih
      obtain ⟨⟨a', b'⟩, hs, he⟩ := Option.map_eq_some_iff.mp h
      cases he
      exact (ih hs).trans (List.suffix_cons _ _)

theorem suffix_of_scanRegex {pattern flags : String}
    (h : scanRegex s = some (pattern, flags, rest)) : rest <:+ s := by
  unfold scanRegex at h
  obtain ⟨⟨body, after⟩, hsplit, h⟩ := Option.bind_eq_some_iff.mp h
  rcases hspan : after.span isIdPart with ⟨letters, end_⟩
  simp only [hspan] at h
  split at h
  · cases h
  · cases h
    exact (List.IsSuffix.trans ⟨letters, (span_eq hspan).1⟩ (suffix_of_splitRegex hsplit))

theorem append_of_scanElementString (h : scanElementString quote s = some (a, rest)) :
    a ++ quote :: rest = s := by
  unfold scanElementString at h
  split at h
  · next d _ hspan =>
      cases h
      have hd : d = quote := by
        rw [List.span_eq_takeWhile_dropWhile, Prod.mk.injEq] at hspan
        have hhead := List.head?_dropWhile_not (fun x => x != quote) s
        rw [hspan.2] at hhead
        simpa using hhead
      rw [← hd]
      exact (span_eq hspan).1
  · cases h

theorem scanElementText_append (s : List Char) :
    (scanElementText s).1 ++ (scanElementText s).2 = s := by
  rw [scanElementText, List.span_eq_takeWhile_dropWhile]
  exact List.takeWhile_append_dropWhile

/-! ## Gaps -/

/-- Every blank may stand between two tokens. -/
theorem isLineBreak_or_isSpace (h : isBlank c = true) :
    isLineBreak c = true ∨ isSpace c = true := by
  have hranges : ∀ r ∈ Text.blankRanges, ∀ n, r.1 ≤ n → n ≤ r.2 →
      (isLineBreak (Char.ofNat n) || isSpace (Char.ofNat n)) = true := by
    intro r hr n hlow hhigh
    simp only [Text.blankRanges, List.mem_cons, List.not_mem_nil, or_false] at hr
    rcases hr with rfl | rfl | rfl | rfl | rfl | rfl | rfl | rfl | rfl | rfl <;>
      dsimp only at hlow hhigh <;> interval_cases n <;> decide
  obtain ⟨r, hr, hc⟩ := List.any_eq_true.mp h
  rw [Bool.and_eq_true, decide_eq_true_eq, decide_eq_true_eq] at hc
  rw [← Char.ofNat_toNat c]
  exact Bool.or_eq_true_iff.mp (hranges r hr c.toNat hc.1 hc.2)

theorem not_isBlank (hb : isLineBreak c = false) (hs : isSpace c = false) : isBlank c = false := by
  rw [Bool.eq_false_iff]
  intro h
  rcases isLineBreak_or_isSpace h with h | h
  · rw [hb] at h
    cases h
  · rw [hs] at h
    cases h

theorem skipGap_slash {d : Char} (hline : d ≠ '/') (hblock : d ≠ '*') (newline : Bool) (pos : Nat)
    (t : List Char) :
    skipGap .between newline pos ('/' :: d :: t) = some (newline, pos, '/' :: d :: t) := by
  delta skipGap
  change (if isLineBreak '/' then _ else if isSpace '/' then _ else if '/' == '/' then _ else _) = _
  rw [if_neg (by decide), if_neg (by decide), if_pos (by decide)]
  simp [hline, hblock]

/-- Behind a gap the source goes on, and not with a blank. -/
theorem continues_of_skipGap : ∀ {s : List Char} {state : GapState} {newline newline' : Bool}
    {pos n : Nat} {t : List Char}, Continues source pos s →
      skipGap state newline pos s = some (newline', n, t) →
      Continues source n t ∧ pos ≤ n ∧ ∀ c u, t = c :: u → isBlank c = false
  | [], .between, _, _, pos, _, _, hs, h => by
      cases h
      exact ⟨hs, Nat.le_refl pos, nofun⟩
  | [], .line, _, _, pos, _, _, hs, h => by
      cases h
      exact ⟨hs, Nat.le_refl pos, nofun⟩
  | [], .block _, _, _, _, _, _, _, h => nomatch h
  | c :: s, .line, newline, _, pos, _, _, hs, h => by
      rw [skipGap_line_cons] at h
      split at h
      · obtain ⟨ht, hle, hb⟩ := continues_of_skipGap hs.cons h
        exact ⟨ht, by omega, hb⟩
      · obtain ⟨ht, hle, hb⟩ := continues_of_skipGap hs.cons h
        exact ⟨ht, by omega, hb⟩
  | c :: s, .block star, newline, _, pos, _, _, hs, h => by
      rw [skipGap_block_cons] at h
      split at h
      · obtain ⟨ht, hle, hb⟩ := continues_of_skipGap hs.cons h
        exact ⟨ht, by omega, hb⟩
      · obtain ⟨ht, hle, hb⟩ := continues_of_skipGap hs.cons h
        exact ⟨ht, by omega, hb⟩
  | c :: s, .between, newline, _, pos, _, _, hs, h => by
      cases hbreak : isLineBreak c with
      | true =>
          rw [skipGap_break newline pos s hbreak] at h
          obtain ⟨ht, hle, hb⟩ := continues_of_skipGap hs.cons h
          exact ⟨ht, by omega, hb⟩
      | false =>
        cases hspace : isSpace c with
        | true =>
            rw [skipGap_space newline pos s hbreak hspace] at h
            obtain ⟨ht, hle, hb⟩ := continues_of_skipGap hs.cons h
            exact ⟨ht, by omega, hb⟩
        | false =>
            have hsolid : ∀ d u, c :: s = d :: u → isBlank d = false := by
              rintro _ _ ⟨⟩
              exact not_isBlank hbreak hspace
            by_cases hslash : c = '/'
            · subst hslash
              match s with
              | [] =>
                  cases h
                  exact ⟨hs, Nat.le_refl pos, hsolid⟩
              | d :: t =>
                  by_cases hline : d = '/'
                  · subst hline
                    obtain ⟨ht, hle, hb⟩ := continues_of_skipGap (hs.append (k := ['/', '/'])) h
                    exact ⟨ht, by omega, hb⟩
                  · by_cases hblock : d = '*'
                    · subst hblock
                      obtain ⟨ht, hle, hb⟩ :=
                        continues_of_skipGap (hs.append (k := ['/', '*'])) h
                      exact ⟨ht, by omega, hb⟩
                    · rw [skipGap_slash hline hblock newline pos t] at h
                      cases h
                      exact ⟨hs, Nat.le_refl pos, hsolid⟩
            · rw [skipGap_token newline pos s hbreak hspace hslash] at h
              cases h
              exact ⟨hs, Nat.le_refl pos, hsolid⟩

end StaticStyle.Syntax
