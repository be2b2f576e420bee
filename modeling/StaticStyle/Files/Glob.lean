/-!
# Globs

Patterns for paths.  A question mark stands for a character and a star for a row of
characters, neither of them a slash.  A class in brackets stands for one of its
characters.  Two stars between slashes, or at either end of a pattern next to
one, stand for any number of folders.  A backslash takes the meaning from the
character after it, and braces hold alternatives between commas.
-/

namespace StaticStyle.Files

/-- A part of a glob. -/
inductive GlobPart where
  | char (c : Char)
  | anyChar
  | anyRow
  /-- Ranges of characters; `negated` means that the character is in none of them. -/
  | oneOf (negated : Bool) (ranges : List (Char × Char))
  /-- Folders at the start of a path, or none. -/
  | leadingFolders
  /-- A slash with folders in front of it and behind it, or none. -/
  | innerFolders
  /-- A slash and anything behind it. -/
  | everythingBelow
deriving DecidableEq, Repr

/-- A pattern for paths. -/
abbrev Glob := List GlobPart

namespace Glob

/-! ## Matching -/

/-- Whether a character is in one of some ranges. -/
def inRanges (ranges : List (Char × Char)) (c : Char) : Bool :=
  ranges.any fun r => r.1 ≤ c && c ≤ r.2

/-- Whether a test holds of a text or of what follows one of its slashes. -/
def afterSomeSlash (test : List Char → Bool) : List Char → Bool
  | [] => false
  | c :: s => (c == '/' && test s) || afterSomeSlash test s

/-- Whether a test holds of what follows some row of characters without a slash. -/
def afterSomeRow (test : List Char → Bool) : List Char → Bool
  | [] => test []
  | c :: s => test (c :: s) || (c != '/' && afterSomeRow test s)

/-- Whether a glob fits the whole of a path. -/
def fits : Glob → List Char → Bool
  | [], s => s.isEmpty
  | .char c :: g, d :: s => c == d && fits g s
  | .anyChar :: g, d :: s => d != '/' && fits g s
  | .oneOf negated ranges :: g, d :: s => (inRanges ranges d != negated) && fits g s
  | .anyRow :: g, s => afterSomeRow (fits g) s
  | .leadingFolders :: g, s => fits g s || afterSomeSlash (fits g) s
  | .innerFolders :: g, '/' :: s => fits g s || afterSomeSlash (fits g) s
  | .everythingBelow :: _, '/' :: _ => true
  | _, _ => false
termination_by structural g => g

/-! ## Reading -/

/-- The ranges of a class up to its closing bracket, and the rest.  A bracket that
comes first is one of the characters. -/
def readRanges (isFirst : Bool) : List Char → Option (List (Char × Char) × List Char)
  | [] => none
  | ']' :: s =>
      if isFirst then (readRanges false s).map fun (rs, rest) => ((']', ']') :: rs, rest)
      else some ([], s)
  | a :: '-' :: b :: s =>
      if b = ']' then (readRanges false (b :: s)).map fun (rs, rest) =>
        ((a, a) :: ('-', '-') :: rs, rest)
      else if b < a then none
      else (readRanges false s).map fun (rs, rest) => ((a, b) :: rs, rest)
  | a :: s => (readRanges false s).map fun (rs, rest) => ((a, a) :: rs, rest)

/-- A class from behind its opening bracket on, and the rest. -/
def readClass (s : List Char) : Option (GlobPart × List Char) :=
  match s with
  | '!' :: s => (readRanges true s).map fun (rs, rest) => (.oneOf true rs, rest)
  | '^' :: s => (readRanges true s).map fun (rs, rest) => (.oneOf true rs, rest)
  | s => (readRanges true s).map fun (rs, rest) => (.oneOf false rs, rest)

/-- The parts of a pattern without braces, at most so many; `atStart` says whether
nothing comes before. -/
def readWithin : (count : Nat) → (atStart : Bool) → List Char → Option Glob
  | 0, _, _ => some []
  | count + 1, atStart, s =>
      match s with
      | [] => some []
      | '*' :: '*' :: '/' :: rest =>
          if atStart then (readWithin count false rest).map (.leadingFolders :: ·)
          else (readWithin count false ('/' :: rest)).map (.anyRow :: ·)
      | ['*', '*'] => some (if atStart then [.leadingFolders, .anyRow] else [.anyRow])
      | '*' :: rest => (readWithin count false rest).map (.anyRow :: ·)
      | '/' :: '*' :: '*' :: '/' :: rest =>
          (readWithin count false rest).map (.innerFolders :: ·)
      | ['/', '*', '*'] => some [.everythingBelow]
      | '?' :: rest => (readWithin count false rest).map (.anyChar :: ·)
      | '[' :: rest =>
          match readClass rest with
          | some (part, rest) => (readWithin count false rest).map (part :: ·)
          | none => none
      | '\\' :: c :: rest => (readWithin count false rest).map (.char c :: ·)
      | ['\\'] => none
      | c :: rest => (readWithin count false rest).map (.char c :: ·)

/-- The alternatives from behind an opening brace on, and the rest. -/
def readAlternatives : List Char → Option (List (List Char) × List Char)
  | [] => none
  | '}' :: s => some ([[]], s)
  | ',' :: s => (readAlternatives s).map fun (as_, rest) => ([] :: as_, rest)
  | '\\' :: c :: s => (readAlternatives s).map fun (as_, rest) =>
      match as_ with
      | a :: as_ => (('\\' :: c :: a) :: as_, rest)
      | [] => ([], rest)
  | c :: s => (readAlternatives s).map fun (as_, rest) =>
      match as_ with
      | a :: as_ => ((c :: a) :: as_, rest)
      | [] => ([], rest)

/-- The patterns without braces that a pattern with at most so many characters stands
for. -/
def expandWithin : (count : Nat) → List Char → Option (List (List Char))
  | 0, _ => some [[]]
  | _ + 1, [] => some [[]]
  | count + 1, '{' :: s =>
      match readAlternatives s with
      | some (as_, rest) =>
          (expandWithin count rest).map fun ends => as_.flatMap fun a => ends.map (a ++ ·)
      | none => none
  | count + 1, '\\' :: c :: s =>
      (expandWithin count s).map fun ends => ends.map fun e => '\\' :: c :: e
  | count + 1, c :: s => (expandWithin count s).map fun ends => ends.map (c :: ·)

/-- The globs that a pattern stands for, if it is well formed. -/
def read (pattern : List Char) : Option (List Glob) :=
  (expandWithin (pattern.length + 1) pattern).bind fun ps =>
    ps.mapM fun p => readWithin (p.length + 1) true p

/-- Whether a pattern fits the whole of a path. -/
def matches? (pattern path : List Char) : Option Bool :=
  (read pattern).map fun gs => gs.any fun g => fits g path

example : matches? "**/x/*.ts".toList "q/x/a.ts".toList = some true := by decide
example : matches? "**/x/*.ts".toList "x/y/a.ts".toList = some false := by decide
example : matches? "[a-c]?".toList "bz".toList = some true := by decide
example : matches? "a/**/b".toList "a/b".toList = some true := by decide

end Glob

end StaticStyle.Files
