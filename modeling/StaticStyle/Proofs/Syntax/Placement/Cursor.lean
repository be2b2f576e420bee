import StaticStyle.Proofs.Syntax.Scanning

/-!
# Cursors in a source

A cursor is in a source (`Cursor.In`) if its offsets are offsets of the source with the
texts that it holds there, and if its token is what stands there.  Going past the token
keeps a cursor in its source (`Cursor.In.next`), and so does scanning the token in another
way (`Cursor.In.rescan`).
-/

namespace StaticStyle.Syntax

open StaticStyle.Syntax.Grammar (splitLess)
open StaticStyle.Text (Continues Solid byteLength)

variable {source s : List Char} {c : Cursor} {t : Scan} {n : Nat}

/-- A cursor stands in a source. -/
structure Cursor.In (source : List Char) (c : Cursor) : Prop where
  last : Continues source c.last c.before
  start : Continues source c.start c.here
  le : c.last ≤ c.start
  scan : ∃ t : Scan, t.Of c.here ∧ c = c.rescan t
  solid : c.token ≠ .endOfText → c.token ≠ .invalid → Solid source c.start

theorem Cursor.at_last (n : Nat) (s : List Char) : (Cursor.at n s).last = n := by
  unfold Cursor.at
  split
  · rfl
  · rfl

theorem Cursor.next_last (c : Cursor) : c.next.last = c.stop := Cursor.at_last c.stop c.after

namespace Cursor.In

theorem of_continues (h : Continues source n s) : (Cursor.at n s).In source := by
  unfold Cursor.at
  split
  · exact ⟨h, h, Nat.le_refl n, ⟨⟨.invalid, [], s⟩, .literal rfl rfl, rfl⟩, fun _ h => absurd rfl h⟩
  · next newline start here hskip =>
      obtain ⟨hhere, hle, hblank⟩ := continues_of_skipGap h hskip
      refine ⟨h, hhere, hle, ⟨scanToken here, scanToken_of here, rfl⟩, fun hend _ => ?_⟩
      cases here with
      | nil => exact absurd rfl hend
      | cons c u => exact ⟨c, u, hhere, hblank c u rfl⟩

/-- A token stands where the cursor says. -/
theorem exists_lexeme (h : c.In source) : ∃ k, c.here = k ++ c.after ∧
    c.stop = c.start + byteLength k ∧ (∀ w e, c.token = .word w e → k ≠ []) ∧
      ∀ m, c.token = .mark m → k = m.toList := by
  obtain ⟨t, hof, hc⟩ := h.scan
  rw [hc]
  exact ⟨t.lexeme, hof.text.symm, rfl, hof.word, hof.mark⟩

theorem stop (h : c.In source) : Continues source c.stop c.after := by
  obtain ⟨k, hk, hstop, -, -⟩ := h.exists_lexeme
  rw [hstop]
  exact .append (hk ▸ h.start)

theorem start_le_stop (h : c.In source) : c.start ≤ c.stop := by
  obtain ⟨k, -, hstop, -, -⟩ := h.exists_lexeme
  omega

theorem last_le_stop (h : c.In source) : c.last ≤ c.stop := Nat.le_trans h.le h.start_le_stop

theorem next (h : c.In source) : c.next.In source := .of_continues h.stop

/-- A mark stands in the source as it is written. -/
theorem mark {m : String} (h : c.In source) (hm : c.token = .mark m) :
    Continues source c.start (m.toList ++ c.after) ∧ c.stop = c.start + byteLength m.toList := by
  obtain ⟨k, hk, hstop, -, hmark⟩ := h.exists_lexeme
  rw [← hmark m hm]
  exact ⟨hk ▸ h.start, hstop⟩

theorem start_lt_stop_of_word {w : String} {e : Bool} (h : c.In source) (hw : c.token = .word w e) :
    c.start < c.stop := by
  obtain ⟨k, hk, hstop, hword, -⟩ := h.exists_lexeme
  have hpos : byteLength k ≠ 0 := fun hzero => hword w e hw (Text.byteLength_eq_zero hzero)
  omega

theorem rescan (h : c.In source) (ht : t.Of c.here)
    (hsolid : t.token ≠ .invalid → Solid source c.start) : (c.rescan t).In source where
  last := h.last
  start := h.start
  le := h.le
  scan := ⟨t, ht, rfl⟩
  solid _ := hsolid

theorem solid_of_mark {m : String} (h : c.In source) (hm : c.token = .mark m) :
    Solid source c.start := by
  apply h.solid
  · rw [hm]
    nofun
  · rw [hm]
    nofun

end Cursor.In

end StaticStyle.Syntax
