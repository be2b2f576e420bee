import Mathlib.Data.List.TakeWhile
import StaticStyle.Proofs.Script.Removal
import StaticStyle.Proofs.Text.Edited
import StaticStyle.Proofs.Syntax.Placement

/-!
# How far a removal reaches

What goes with an import declaration is the end of its line (`importExtent_eq`), and what
goes with a name of an import is a comma and blanks (`nameExtent_cases`), which does not get
past the braces that the name stands in.  So a removal takes nothing of what stands in front
of the declaration or behind it, if that starts with a character that is not blank
(`Reaches`).
-/

namespace StaticStyle.Text

open StaticStyle.Syntax (Braced)

variable {source s t k blanks : List Char} {outer r : Span} {c : Char}

/-- A range is a part of the source.  It does not start in front of a span, and it stops in
front of all that stands behind the span and does not start with a blank. -/
structure Reaches (source : List Char) (outer r : Span) : Prop where
  isPart : (slice? source r).isSome
  lower : outer.start ≤ r.start
  upper : ∀ m, outer.stop ≤ m → Solid source m → r.stop ≤ m

theorem Reaches.refl (h : (slice? source r).isSome) : Reaches source r r where
  isPart := h
  lower := Nat.le_refl r.start
  upper := fun _ hm _ => hm

theorem Reaches.of_le (h : (slice? source r).isSome) (hl : outer.start ≤ r.start)
    (hu : r.stop ≤ outer.stop) : Reaches source outer r where
  isPart := h
  lower := hl
  upper := fun _ hm _ => Nat.le_trans hu hm

/-! ## Cutting -/

theorem Continues.split? {n : Nat} (h : Continues source n s) :
    ∃ before, split? n source = some (before, s) ∧ source = before ++ s ∧
      byteLength before = n := by
  obtain ⟨before, rfl, rfl⟩ := h
  exact ⟨before, split?_append before s, rfl, rfl⟩

theorem drop_takeWhile (p : Char → Bool) (s : List Char) :
    s.drop (s.takeWhile p).length = s.dropWhile p := by
  have happend : s.takeWhile p ++ s.dropWhile p = s := List.takeWhile_append_dropWhile
  calc s.drop (s.takeWhile p).length
      = (s.takeWhile p ++ s.dropWhile p).drop (s.takeWhile p).length := by rw [happend]
    _ = s.dropWhile p := List.drop_left

/-! ## Declarations -/

/-- Spaces and tabs, with at most one line break behind them. -/
def IsLineEnd (s : List Char) : Prop :=
  ∃ gap line, s = gap ++ line ∧ (∀ c ∈ gap, c = ' ' ∨ c = '\t') ∧
    (line = [] ∨ line = ['\n'] ∨ line = ['\r', '\n'])

theorem IsLineEnd.isBlank (h : IsLineEnd s) (hc : c ∈ s) : isBlank c = true := by
  obtain ⟨gap, line, rfl, hgap, hline⟩ := h
  rcases List.mem_append.mp hc with hc | hc
  · rcases hgap c hc with rfl | rfl <;> decide
  · rcases hline with rfl | rfl | rfl
    · cases hc
    · obtain rfl := List.mem_singleton.mp hc
      decide
    · rcases List.mem_pair.mp hc with rfl | rfl <;> decide

theorem exists_lineBreak_append (s : List Char) :
    ∃ line t, s = line ++ t ∧ byteLength line = lineBreakLength s ∧
      (line = [] ∨ line = ['\n'] ∨ line = ['\r', '\n']) := by
  unfold lineBreakLength
  split
  · exact ⟨['\r', '\n'], _, rfl, rfl, Or.inr (Or.inr rfl)⟩
  · exact ⟨['\n'], _, rfl, rfl, Or.inr (Or.inl rfl)⟩
  · exact ⟨[], s, rfl, rfl, Or.inl rfl⟩

/-- What goes with a declaration is the end of its line, as much as there is of it. -/
theorem importExtent_eq {rest : List Char} (h : Continues source r.stop rest) :
    ∃ added after, rest = added ++ after ∧ IsLineEnd added ∧
      importExtent source r = some ⟨r.start, r.stop + byteLength added⟩ ∧
      ∀ other t, rest = other ++ t → IsLineEnd other → byteLength other ≤ byteLength added := by
  obtain ⟨before, hsplit, -, -⟩ := h.split?
  let isGap : Char → Bool := fun c => c == ' ' || c == '\t'
  have hisGap : ∀ c, isGap c = true ↔ c = ' ' ∨ c = '\t' := by simp [isGap]
  obtain ⟨line, after, hline, hlength, hbreak⟩ := exists_lineBreak_append (rest.dropWhile isGap)
  have hadded : byteLength (rest.takeWhile isGap ++ line) =
      byteLength (rest.takeWhile isGap) + lineBreakLength (rest.dropWhile isGap) := by
    rw [byteLength_append, hlength]
  refine ⟨rest.takeWhile isGap ++ line, after, ?_, ?_, ?_, ?_⟩
  · rw [List.append_assoc, ← hline, List.takeWhile_append_dropWhile]
  · exact ⟨_, line, rfl, fun c hc => (hisGap c).mp (List.mem_takeWhile_imp hc), hbreak⟩
  · unfold importExtent
    rw [hsplit]
    refine (Option.bind_some _ _).trans (congrArg some (congrArg (Span.mk _) ?_))
    rw [drop_takeWhile, hadded, Nat.add_assoc]
  · rintro other t rfl ⟨gap, line', rfl, hgap, hbreak'⟩
    have hgap' : ∀ c ∈ gap, isGap c = true := fun c hc => (hisGap c).mpr (hgap c hc)
    rw [hadded, List.append_assoc, List.takeWhile_append_of_pos hgap',
      List.dropWhile_append_of_pos hgap', byteLength_append, byteLength_append, Nat.add_assoc]
    refine Nat.add_le_add_left ?_ _
    rcases hbreak' with rfl | rfl | rfl
    · exact Nat.zero_le _
    · exact Nat.le_add_left 1 0
    · exact Nat.le_add_left 2 0

/-- What goes with a declaration are blanks. -/
theorem importExtent_reaches (h : (slice? source r).isSome) :
    ∃ extent, importExtent source r = some extent ∧ Reaches source r extent := by
  obtain ⟨part, hpart⟩ := Option.isSome_iff_exists.mp h
  obtain ⟨rest, hstart, hstop, hsum⟩ := continues_of_slice? hpart
  obtain ⟨added, after, rfl, hadded, hextent, -⟩ := importExtent_eq hstop
  refine ⟨_, hextent, ?_, Nat.le_refl _, ?_⟩
  · exact hstart.isSome_slice? hstop.append (by omega)
  · rintro m hm ⟨c, s, hc, hsolid⟩
    refine hstop.add_byteLength_le hc hm fun hmem => ?_
    rw [hadded.isBlank hmem] at hsolid
    cases hsolid

/-! ## Names -/

/-- What stands between the names of a list. -/
def IsSeparator (s : List Char) : Prop := ∀ c ∈ s, c = ',' ∨ isBlank c = true

/-- What a text ends with, without the blanks behind it. -/
theorem eq_of_reverse_trimEnd {c : Char} {before rest : List Char}
    (h : (trimEnd before).reverse = c :: rest) :
    before = rest.reverse ++ c :: (before.reverse.takeWhile isBlank).reverse := by
  have hreverse : before.reverse = before.reverse.takeWhile isBlank ++ c :: rest := by
    rw [← h, trimEnd, List.reverse_reverse, List.takeWhile_append_dropWhile]
  have hagain := congrArg List.reverse hreverse
  rwa [List.reverse_reverse, List.reverse_append, List.reverse_cons, List.append_assoc,
    List.singleton_append] at hagain

/-- What goes with a name is part of what separates it from the name behind it, or else from
the name in front. -/
theorem nameExtent_cases {after : List Char} (hstart : Continues source r.start s)
    (hstop : Continues source r.stop after) :
    (∃ wide rest, after = wide ++ rest ∧ IsSeparator wide ∧
      nameExtent source r = some ⟨r.start, r.stop + byteLength wide⟩) ∨
    ∃ wide n, Continues source n (wide ++ s) ∧ n + byteLength wide = r.start ∧
      IsSeparator wide ∧ nameExtent source r = some ⟨n, r.stop⟩ := by
  obtain ⟨front, hsplit, -, -⟩ := hstop.split?
  obtain ⟨before, hfront, hsource, hlength⟩ := hstart.split?
  unfold nameExtent
  rw [hsplit]
  simp only [Option.bind_eq_bind, Option.bind_some, drop_takeWhile]
  split
  · next rest hcomma =>
      -- The comma behind the name and the blanks around it.
      refine Or.inl ⟨after.takeWhile isBlank ++ ',' :: rest.takeWhile isBlank,
        rest.dropWhile isBlank, ?_, ?_, ?_⟩
      · rw [List.append_assoc, List.cons_append, List.takeWhile_append_dropWhile, ← hcomma,
          List.takeWhile_append_dropWhile]
      · intro c hc
        rcases List.mem_append.mp hc with hc | hc
        · exact Or.inr (List.mem_takeWhile_imp hc)
        · exact (List.mem_cons.mp hc).imp_right List.mem_takeWhile_imp
      · have hcomma : ','.utf8Size = 1 := rfl
        simp only [byteLength_append, byteLength_cons, hcomma, ← Nat.add_assoc]
        rfl
  · rw [hfront, Option.bind_some]
    dsimp only
    split
    · next rest hcomma =>
        -- The comma in front of the name and the blanks behind the comma.
        have hwide := eq_of_reverse_trimEnd hcomma
        refine Or.inr ⟨',' :: (before.reverse.takeWhile isBlank).reverse, byteLength rest, ?_, ?_,
          ?_, rfl⟩
        · refine ⟨rest.reverse, ?_, byteLength_reverse rest⟩
          rw [← List.append_assoc, ← hwide, hsource]
        · rw [← byteLength_reverse rest, ← byteLength_append, ← hwide, hlength]
        · intro c hc
          refine (List.mem_cons.mp hc).imp_right fun hc => ?_
          exact List.mem_takeWhile_imp (List.mem_reverse.mp hc)
    · exact Or.inl ⟨[], after, rfl, List.forall_mem_nil _, rfl⟩

theorem IsSeparator.not_mem (h : IsSeparator s) (hcomma : c ≠ ',') (hc : isBlank c = false) :
    c ∉ s := by
  intro hmem
  rcases h c hmem with heq | hblank
  · exact hcomma heq
  · rw [hc] at hblank
    cases hblank

/-- What goes with a name that stands in braces stands in them too. -/
theorem nameExtent_reaches (h : Braced source outer r) :
    ∃ extent, nameExtent source r = some extent ∧ Reaches source outer extent := by
  obtain ⟨part, hpart⟩ := Option.isSome_iff_exists.mp h.isPart
  obtain ⟨after, hstart, hstop, hsum⟩ := continues_of_slice? hpart
  obtain ⟨opening, inner, hopening, hlower, hbefore⟩ := h.opening
  obtain ⟨closing, behind, hclosing, hbehind, hupper⟩ := h.closing
  rcases nameExtent_cases hstart hstop with
    ⟨wide, rest, rfl, hwide, hextent⟩ | ⟨wide, n, hn, hsum', hwide, hextent⟩
  · have hbrace : '\x7d' ∉ wide := hwide.not_mem (by decide) (by decide)
    have hle := hstop.add_byteLength_le hclosing hbehind hbrace
    refine ⟨_, hextent, .of_le ?_ (by dsimp only; omega) (by dsimp only; omega)⟩
    exact hstart.isSome_slice? hstop.append (by omega)
  · have hbrace : '\x7b' ∉ wide := hwide.not_mem (by decide) (by decide)
    have hlower' : outer.start ≤ n := by
      by_contra hlt
      have hle := hn.add_byteLength_le hopening (by omega) hbrace
      omega
    refine ⟨_, hextent, .of_le ?_ hlower' (by dsimp only; omega)⟩
    exact hn.isSome_slice? hstop (by omega)

end StaticStyle.Text
