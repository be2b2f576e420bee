import StaticStyle.Text.Span

/-!
# Edits

An edit replaces a span of a source text.  `splice` applies a list of edits
in one pass from left to right: the edits are taken in order of their spans, and
an edit that starts before the end of the last one taken, or that ends outside
the source, is passed over.

The result is `none` when an edit that is taken cuts the source inside a
character, or when a span that runs backwards leaves the next cut undefined.
-/

namespace StaticStyle.Text

/-- The replacement of a span of the source by a text. -/
structure Edit where
  /-- The bytes to take out. -/
  span : Span
  /-- What to put there. -/
  replacement : List Char
deriving DecidableEq, Repr

/-- The edit that takes a span out and puts nothing there. -/
def Edit.delete (span : Span) : Edit := ⟨span, []⟩

/-- Spans are compared by where they start, then by where they end. -/
def Span.before (a b : Span) : Bool :=
  a.start < b.start || (a.start == b.start && a.stop ≤ b.stop)

/-- Applies edits that are already in order, from byte offset `cursor` on. -/
def spliceFrom (source : List Char) (cursor : Nat) : List Edit → Option (List Char)
  | [] => slice? source ⟨cursor, byteLength source⟩
  | e :: es =>
      if e.span.start < cursor || byteLength source < e.span.stop then
        spliceFrom source cursor es
      else do
        let kept ← slice? source ⟨cursor, e.span.start⟩
        let rest ← spliceFrom source e.span.stop es
        return kept ++ e.replacement ++ rest

/-- The source with a list of edits applied.  Edits with the same span keep
their order. -/
def splice (source : List Char) (edits : List Edit) : Option (List Char) :=
  spliceFrom source 0 (edits.mergeSort fun a b => a.span.before b.span)

/-- Insertions at one place appear in the order they are given. -/
example : splice "abc".toList [⟨⟨1, 2⟩, ['3']⟩, ⟨⟨1, 1⟩, ['1']⟩, ⟨⟨1, 1⟩, ['2']⟩]
    = some "a123c".toList := by cbv
/-- An edit inside a character has no result. -/
example : splice "é".toList [⟨⟨1, 2⟩, []⟩] = none := by cbv

end StaticStyle.Text
