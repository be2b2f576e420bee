/-!
# Spans

A span is a half-open range of byte offsets into the UTF-8 form of a text.  The
texts themselves are lists of characters, so an offset is meaningful only where
it falls between two characters.  `split?` cuts a text at an offset and is
`none` when the offset lies inside a character or past the end; `slice?` takes
the part of a text that a span covers.

The main statements say that cutting loses nothing (`append_of_split?`) and that
it cuts where it was asked to (`byteLength_of_split?`).
-/

namespace StaticStyle.Text

/-- A half-open range of byte offsets. -/
structure Span where
  /-- The offset of the first byte. -/
  start : Nat
  /-- The offset just past the last byte. -/
  stop : Nat
deriving DecidableEq, Repr, Inhabited

/-! ## Lengths -/

/-- The number of bytes of a text in UTF-8. -/
def byteLength : List Char → Nat
  | [] => 0
  | c :: s => c.utf8Size + byteLength s

@[simp] theorem byteLength_nil : byteLength [] = 0 := rfl

@[simp] theorem byteLength_cons (c : Char) (s : List Char) :
    byteLength (c :: s) = c.utf8Size + byteLength s := rfl

@[simp] theorem byteLength_append (s t : List Char) :
    byteLength (s ++ t) = byteLength s + byteLength t := by
  induction s with
  | nil => simp
  | cons c s ih => simp [ih, Nat.add_assoc]

/-! ## Cutting -/

/-- The parts of a text before and after a byte offset. -/
def split? : Nat → List Char → Option (List Char × List Char)
  | 0, s => some ([], s)
  | _ + 1, [] => none
  | n + 1, c :: s =>
      if c.utf8Size ≤ n + 1 then
        (split? (n + 1 - c.utf8Size) s).map fun (before, after) => (c :: before, after)
      else none

/-- The part of a text that a span covers, if both its ends fall between
characters and it does not run backwards. -/
def slice? (s : List Char) (r : Span) : Option (List Char) :=
  if r.start ≤ r.stop then
    (split? r.start s).bind fun (_, rest) => (split? (r.stop - r.start) rest).map (·.1)
  else none

@[simp] theorem split?_zero (s : List Char) : split? 0 s = some ([], s) := by
  cases s <;> rfl

/-- A cut loses nothing. -/
theorem append_of_split? {n : Nat} {s before after : List Char}
    (h : split? n s = some (before, after)) : before ++ after = s := by
  induction s generalizing n before with
  | nil =>
      cases n with
      | zero => simp_all [split?]
      | succ n => simp [split?] at h
  | cons c s ih =>
      cases n with
      | zero => simp_all [split?]
      | succ n =>
          simp only [split?] at h
          split at h
          · obtain ⟨⟨b, a⟩, hs, he⟩ := Option.map_eq_some_iff.mp h
            simp only [Prod.mk.injEq] at he
            obtain ⟨rfl, rfl⟩ := he
            simp [ih hs]
          · simp at h

/-- The first part of a cut has the length asked for. -/
theorem byteLength_of_split? {n : Nat} {s before after : List Char}
    (h : split? n s = some (before, after)) : byteLength before = n := by
  induction s generalizing n before with
  | nil =>
      cases n with
      | zero => simp_all [split?]
      | succ n => simp [split?] at h
  | cons c s ih =>
      cases n with
      | zero => simp_all [split?]
      | succ n =>
          simp only [split?] at h
          split at h
          · obtain ⟨⟨b, a⟩, hs, he⟩ := Option.map_eq_some_iff.mp h
            simp only [Prod.mk.injEq] at he
            obtain ⟨rfl, rfl⟩ := he
            have := ih hs
            simp only [byteLength_cons]
            omega
          · simp at h

/-- A text is cut at the end of any of its prefixes. -/
theorem split?_append (before after : List Char) :
    split? (byteLength before) (before ++ after) = some (before, after) := by
  induction before with
  | nil => simp
  | cons c s ih =>
      have hc : 0 < c.utf8Size := Char.utf8Size_pos c
      obtain ⟨n, hn⟩ : ∃ n, byteLength (c :: s) = n + 1 := ⟨byteLength (c :: s) - 1, by simp; omega⟩
      rw [hn, List.cons_append, split?]
      simp only [byteLength_cons] at hn
      rw [if_pos (by omega), show n + 1 - c.utf8Size = byteLength s by omega, ih]
      rfl

end StaticStyle.Text
