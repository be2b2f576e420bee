/-!
# Searching texts

Where a text occurs in another, and the parts of a text around a separator.
-/

namespace StaticStyle.Text

/-- Whether a text occurs somewhere in another. -/
def occursIn (part : List Char) : List Char → Bool
  | [] => part.isEmpty
  | c :: s => part.isPrefixOf (c :: s) || occursIn part s

/-- The text before the first separator, and the text after it if there is one. -/
def cut (separator : Char) : List Char → List Char × Option (List Char)
  | [] => ([], none)
  | c :: s =>
      if c = separator then ([], some s)
      else
        let (before, after) := cut separator s
        (c :: before, after)

/-- The text before the last separator and the text after it, if there is one. -/
def cutLast? (separator : Char) (s : List Char) : Option (List Char × List Char) :=
  match cut separator s.reverse with
  | (after, some before) => some (before.reverse, after.reverse)
  | (_, none) => none

/-- The parts of a text between separators.  A text without one is its only part. -/
def pieces (separator : Char) : List Char → List (List Char)
  | [] => [[]]
  | c :: s =>
      if c = separator then [] :: pieces separator s
      else match pieces separator s with
        | p :: ps => (c :: p) :: ps
        | [] => [[c]]

example : cutLast? '.' "a.b.c".toList = some ("a.b".toList, "c".toList) := by decide
example : cutLast? '.' "abc".toList = none := by decide
example : occursIn "bc".toList "abcd".toList = true ∧ occursIn [] [] = true := by decide

end StaticStyle.Text
