import StaticStyle.Text.Blank

/-!
# Directives

A stylesheet asks for the styles of the build with a directive: an at-rule without
a block, which ends with a semicolon or with the text.  `parts` cuts a stylesheet
at its directives, found from left to right without overlap, and `expand` puts a
text in the place of each.
-/

namespace StaticStyle.Sheet

open StaticStyle.Text (isBlank)

/-- The text after a row of blanks and a semicolon or the end. -/
def afterEnd? (s : List Char) : Option (List Char) :=
  match s.dropWhile isBlank with
  | [] => some []
  | ';' :: rest => some rest
  | _ => none

/-- The text after the directive that a text starts with, if it starts with one. -/
def afterDirective? (name : List Char) : List Char → Option (List Char)
  | '@' :: s => if name.isPrefixOf s then afterEnd? (s.drop name.length) else none
  | _ => none

theorem length_dropWhile_le (p : Char → Bool) (s : List Char) :
    (s.dropWhile p).length ≤ s.length := by
  induction s with
  | nil => simp
  | cons c s ih =>
      simp only [List.dropWhile_cons]
      split
      · simp only [List.length_cons]; omega
      · simp

theorem length_afterEnd? {s rest : List Char} (h : afterEnd? s = some rest) :
    rest.length ≤ s.length := by
  have hd := length_dropWhile_le isBlank s
  unfold afterEnd? at h
  split at h
  · simp_all
  · rename_i hs
    rw [hs] at hd
    simp only [Option.some.injEq] at h
    subst h
    simp only [List.length_cons] at hd
    omega
  · simp at h

/-- A directive takes up at least one character. -/
theorem length_afterDirective? {name s rest : List Char} (h : afterDirective? name s = some rest) :
    rest.length < s.length := by
  unfold afterDirective? at h
  split at h
  · split at h
    · have := length_afterEnd? h
      simp only [List.length_drop] at this
      simp only [List.length_cons]
      omega
    · simp at h
  · simp at h

/-- The parts of a stylesheet between its directives. -/
def parts (name : List Char) (s : List Char) : List (List Char) :=
  match _h : afterDirective? name s with
  | some rest => [] :: parts name rest
  | none =>
      match s with
      | [] => [[]]
      | c :: s =>
          match parts name s with
          | [] => [[c]]
          | p :: ps => (c :: p) :: ps
termination_by s.length
decreasing_by
  · exact length_afterDirective? (by assumption)
  · simp

/-- Whether a stylesheet has a directive. -/
def hasDirective (name : List Char) (s : List Char) : Bool := (parts name s).length != 1

/-- A stylesheet with a text in the place of each directive. -/
def expand (name : List Char) (styles s : List Char) : List Char :=
  styles.intercalate (parts name s)

example : expand "f".toList "X".toList "a @f ;b@f;@fg;@f\n".toList = "a XbX@fg;X".toList := by
  cbv

end StaticStyle.Sheet
