import StaticStyle.Text.Blank
import StaticStyle.Text.Edit

/-!
# Removing imports

Which part of a script goes when an import is taken out.  A whole declaration goes
with the blanks after it and the end of its line.  One name of several goes with
the comma that separates it from its neighbour: the one after it if there is one,
otherwise the one in front.

A range is `none` where the span that it starts from does not fit the source.
-/

namespace StaticStyle.Text

/-- The bytes of a line break at the start of a text. -/
def lineBreakLength : List Char → Nat
  | '\r' :: '\n' :: _ => 2
  | '\n' :: _ => 1
  | _ => 0

/-- What goes with an import declaration. -/
def importExtent (source : List Char) (declaration : Span) : Option Span := do
  let (_, rest) ← split? declaration.stop source
  let blanks := rest.takeWhile fun c => c == ' ' || c == '\t'
  let lineBreak := lineBreakLength (rest.drop blanks.length)
  return ⟨declaration.start, declaration.stop + byteLength blanks + lineBreak⟩

/-- What goes with one name of an import. -/
def nameExtent (source : List Char) (specifier : Span) : Option Span := do
  let (_, after) ← split? specifier.stop source
  let gap := after.takeWhile isBlank
  match after.drop gap.length with
  | ',' :: rest =>
      let space := rest.takeWhile isBlank
      return ⟨specifier.start, specifier.stop + byteLength gap + 1 + byteLength space⟩
  | _ =>
      let (before, _) ← split? specifier.start source
      match (trimEnd before).reverse with
      | ',' :: rest => return ⟨byteLength rest, specifier.stop⟩
      | _ => return specifier

example : nameExtent "a, b".toList ⟨0, 1⟩ = some ⟨0, 3⟩ := by decide
example : nameExtent "a, b".toList ⟨3, 4⟩ = some ⟨1, 4⟩ := by decide

end StaticStyle.Text
