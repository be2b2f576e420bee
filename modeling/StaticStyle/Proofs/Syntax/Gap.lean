import Mathlib.Data.List.Infix
import StaticStyle.Syntax.Cursor
import StaticStyle.Text.Blank

/-!
# Gaps

A gap is what may stand between two tokens: white space, line breaks and comments,
each comment with its end.  The scanner goes past a gap whatever follows it
(`skipGap_append`), so a cursor in front of a gap and a token has that token next
(`Cursor.at_gap`).
-/

namespace StaticStyle.Syntax

open StaticStyle.Text (byteLength isBlank trimStart)

/-- White space, line breaks and comments. -/
inductive Gap : List Char → Prop where
  | nil : Gap []
  | space {c : Char} {g : List Char} :
      (isLineBreak c || isSpace c) = true → Gap g → Gap (c :: g)
  | line {body g : List Char} {c : Char} :
      (∀ d ∈ body, isLineBreak d = false) → isLineBreak c = true → Gap g →
        Gap ('/' :: '/' :: (body ++ c :: g))
  | block {body g : List Char} :
      ¬ ['*', '/'] <:+: body → Gap g → Gap ('/' :: '*' :: (body ++ '*' :: '/' :: g))

variable {g body : List Char} {c : Char}

/-- A gap behind a gap makes a gap. -/
theorem Gap.append {g' : List Char} (h : Gap g) (h' : Gap g') : Gap (g ++ g') := by
  induction h with
  | nil => exact h'
  | space hc _ ih => exact .space hc ih
  | line hbody hc _ ih =>
      rw [List.cons_append, List.cons_append, List.append_assoc]
      exact .line hbody hc ih
  | block hbody _ ih =>
      rw [List.cons_append, List.cons_append, List.append_assoc]
      exact .block hbody ih

/-! ## Single characters -/

section

variable (star newline : Bool) (pos : Nat) (s : List Char)

theorem skipGap_break (h : isLineBreak c = true) :
    skipGap .between newline pos (c :: s) = skipGap .between true (pos + c.utf8Size) s := by
  delta skipGap
  exact if_pos h

theorem skipGap_space (hb : isLineBreak c = false) (h : isSpace c = true) :
    skipGap .between newline pos (c :: s) = skipGap .between newline (pos + c.utf8Size) s := by
  delta skipGap
  exact (if_neg (Bool.eq_false_iff.mp hb)).trans (if_pos h)

/-- A gap ends in front of a character of a token. -/
theorem skipGap_token (hb : isLineBreak c = false) (hs : isSpace c = false) (hc : c ≠ '/') :
    skipGap .between newline pos (c :: s) = some (newline, pos, c :: s) := by
  delta skipGap
  exact (if_neg (Bool.eq_false_iff.mp hb)).trans <|
    (if_neg (Bool.eq_false_iff.mp hs)).trans (if_neg (by simpa using hc))

theorem skipGap_line_cons :
    skipGap .line newline pos (c :: s) =
      if isLineBreak c then skipGap .between true (pos + c.utf8Size) s
      else skipGap .line newline (pos + c.utf8Size) s := rfl

theorem skipGap_block_cons :
    skipGap (.block star) newline pos (c :: s) =
      if star && c == '/' then skipGap .between newline (pos + c.utf8Size) s
      else skipGap (.block (c == '*')) (newline || isLineBreak c) (pos + c.utf8Size) s := rfl

end

/-! ## Comments -/

/-- A comment to the end of the line ends with the line. -/
theorem skipGap_line (h : ∀ d ∈ body, isLineBreak d = false) (hc : isLineBreak c = true)
    (newline : Bool) (pos : Nat) (s : List Char) :
    skipGap .line newline pos (body ++ c :: s) =
      skipGap .between true (pos + byteLength body + c.utf8Size) s := by
  induction body generalizing pos with
  | nil => rw [List.nil_append, skipGap_line_cons, if_pos hc, Text.byteLength_nil, Nat.add_zero]
  | cons d body ih =>
      have hd := h d List.mem_cons_self
      rw [List.cons_append, skipGap_line_cons, if_neg (Bool.eq_false_iff.mp hd),
        ih fun d' hd' => h d' (List.mem_cons_of_mem _ hd'), Text.byteLength_cons]
      congr 1
      omega

/-- Any other comment ends at its first star and slash. -/
theorem skipGap_block (h : ¬ ['*', '/'] <:+: body) (star newline : Bool)
    (hstar : star = true → body.head? ≠ some '/') (pos : Nat) (s : List Char) :
    ∃ newline', skipGap (.block star) newline pos (body ++ '*' :: '/' :: s) =
      skipGap .between newline' (pos + byteLength body + 2) s := by
  induction body generalizing star newline pos with
  | nil =>
      have hstep : (star && '*' == '/') = false := by rw [show ('*' == '/') = false from rfl, Bool.and_false]
      exact ⟨newline || isLineBreak '*', by
        rw [List.nil_append, skipGap_block_cons, if_neg (Bool.eq_false_iff.mp hstep)]
        rfl⟩
  | cons d body ih =>
      have hrest : ¬ ['*', '/'] <:+: body := fun hi => h (hi.trans (List.suffix_cons d body).isInfix)
      -- A star makes a slash after it the end, and there is none.
      have hnext : (d == '*') = true → body.head? ≠ some '/' := by
        intro hd hhead
        obtain ⟨t, rfl⟩ := List.head?_eq_some_iff.mp hhead
        rw [beq_iff_eq.mp hd] at h
        exact h ⟨[], t, rfl⟩
      have hend : (star && d == '/') = false := by
        cases star with
        | false => rfl
        | true =>
            have hne := hstar rfl
            rw [List.head?_cons, ne_eq, Option.some.injEq] at hne
            exact beq_eq_false_iff_ne.mpr hne
      obtain ⟨newline', hskip⟩ := ih hrest (d == '*') (newline || isLineBreak d) hnext
        (pos + d.utf8Size)
      refine ⟨newline', ?_⟩
      rw [List.cons_append, skipGap_block_cons, if_neg (Bool.eq_false_iff.mp hend), hskip,
        Text.byteLength_cons]
      congr 1
      omega

/-! ## Whole gaps -/

/-- The scanner goes past a gap. -/
theorem skipGap_append (h : Gap g) (newline : Bool) (pos : Nat) (s : List Char) :
    ∃ newline', skipGap .between newline pos (g ++ s) =
      skipGap .between newline' (pos + byteLength g) s := by
  induction h generalizing newline pos with
  | nil => exact ⟨newline, rfl⟩
  | @space c g hc _ ih =>
      rw [List.cons_append, Text.byteLength_cons, ← Nat.add_assoc]
      cases hb : isLineBreak c with
      | true =>
          rw [skipGap_break _ _ _ hb]
          exact ih true (pos + c.utf8Size)
      | false =>
          rw [hb, Bool.false_or] at hc
          rw [skipGap_space _ _ _ hb hc]
          exact ih newline (pos + c.utf8Size)
  | @line body g c hbody hc _ ih =>
      obtain ⟨newline', hskip⟩ := ih true (pos + 2 + byteLength body + c.utf8Size)
      refine ⟨newline', ?_⟩
      change skipGap .line newline (pos + 2) ((body ++ c :: g) ++ s) = _
      rw [List.append_assoc, List.cons_append, skipGap_line hbody hc, hskip]
      simp only [Text.byteLength_cons, Text.byteLength_append]
      have hslash : '/'.utf8Size = 1 := rfl
      congr 1
      omega
  | @block body g hbody _ ih =>
      obtain ⟨newline', hblock⟩ := skipGap_block hbody false newline nofun (pos + 2) (g ++ s)
      obtain ⟨newline'', hskip⟩ := ih newline' (pos + 2 + byteLength body + 2)
      refine ⟨newline'', ?_⟩
      change skipGap (.block false) newline (pos + 2) ((body ++ '*' :: '/' :: g) ++ s) = _
      rw [List.append_assoc, List.cons_append, List.cons_append, hblock, hskip]
      simp only [Text.byteLength_cons, Text.byteLength_append]
      have hslash : '/'.utf8Size = 1 := rfl
      have hstar : '*'.utf8Size = 1 := rfl
      congr 1
      omega

/-- A comma behind a gap can be seen from in front of the gap only if the gap is blank. -/
theorem Gap.blank_of_trimStart {g : List Char} (hg : Gap g) (s : List Char)
    (h : (trimStart (g ++ ',' :: s)).head? = some ',') : ∀ c ∈ g, isBlank c = true := by
  induction hg with
  | nil => exact nofun
  | @space c g hc _ ih =>
      cases hb : isBlank c with
      | true =>
          rw [List.cons_append, trimStart, List.dropWhile_cons_of_pos hb] at h
          rintro d (_ | hd)
          · exact hb
          · exact ih h d ‹_›
      | false =>
          rw [List.cons_append, trimStart, List.dropWhile_cons_of_neg (by rw [hb]; decide)] at h
          cases h
          exact absurd hc (by decide)
  | line _ _ _ =>
      rw [List.cons_append, trimStart, List.dropWhile_cons_of_neg (by decide)] at h
      exact absurd (Option.some.inj h) (by decide)
  | block _ _ =>
      rw [List.cons_append, trimStart, List.dropWhile_cons_of_neg (by decide)] at h
      exact absurd (Option.some.inj h) (by decide)

/-- Behind a gap a cursor has the token that stands there next. -/
theorem Cursor.at_gap (h : Gap g) (hb : isLineBreak c = false) (hs : isSpace c = false)
    (hc : c ≠ '/') (last : Nat) (s : List Char) :
    ∃ newline, Cursor.at last (g ++ c :: s) =
      ⟨last, g ++ c :: s, newline, last + byteLength g, c :: s, (scanToken (c :: s)).token,
        last + byteLength g + byteLength (scanToken (c :: s)).lexeme, (scanToken (c :: s)).rest⟩ := by
  obtain ⟨newline, hskip⟩ := skipGap_append h false last (c :: s)
  rw [skipGap_token newline (last + byteLength g) s hb hs hc] at hskip
  refine ⟨newline, ?_⟩
  rw [Cursor.at, hskip]

end StaticStyle.Syntax
