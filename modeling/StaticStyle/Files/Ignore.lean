import StaticStyle.Files.Glob
import StaticStyle.Text.Blank

/-!
# Ignore files

A file of patterns, a line each, that says which files below its folder are left
out.  The last pattern that fits decides; one that starts with an exclamation
mark takes files in again.  A pattern with a slash that is not at its end fits
paths from the folder on, any other fits at any depth.  A slash at the end limits
a pattern to folders.
-/

namespace StaticStyle.Files

/-- A line of an ignore file. -/
structure IgnoreRule where
  /-- The patterns that the line stands for. -/
  globs : List Glob
  /-- Whether what fits is taken in instead of left out. -/
  includes : Bool
  /-- Whether only folders fit. -/
  foldersOnly : Bool
deriving Repr

namespace IgnoreRule

/-- The name of the files that hold rules. -/
def fileName : String := ".gitignore"

/-- A line without the blanks at its end, unless the last one is escaped. -/
def withoutTrail (line : List Char) : List Char :=
  match line.reverse with
  | ' ' :: '\\' :: _ => line
  | _ => Text.trimEnd line

/-- Takes a mark off the front of a pattern: whether it takes files in, whether it is
bound to the folder, and the rest. -/
def readMarks (line : List Char) : Bool × Bool × List Char :=
  match line with
  | '\\' :: '!' :: rest => (false, false, '!' :: rest)
  | '\\' :: '#' :: rest => (false, false, '#' :: rest)
  | '!' :: '/' :: rest => (true, true, rest)
  | '!' :: rest => (true, false, rest)
  | '/' :: rest => (false, true, rest)
  | rest => (false, false, rest)

/-- Takes a slash off the end of a pattern. -/
def readEnd (pattern : List Char) : Bool × List Char :=
  match pattern.reverse with
  | '/' :: '\\' :: rest => (true, rest.reverse)
  | '/' :: rest => (true, rest.reverse)
  | _ => (false, pattern)

/-- A pattern as it is matched against paths from the folder on. -/
def anchor (bound : Bool) (pattern : List Char) : List Char :=
  let isDeep := "**/".toList.isPrefixOf pattern || pattern == "**".toList
  let pattern :=
    if bound || pattern.contains '/' || isDeep then pattern else "**/".toList ++ pattern
  if "/**".toList.isSuffixOf pattern then pattern ++ "/*".toList else pattern

/-- The rule of a line, if it has one. -/
def ofLine (line : List Char) : Option IgnoreRule :=
  if line.head? == some '#' then none
  else
    let line := withoutTrail line
    if line.isEmpty then none
    else
      let (includes, bound, rest) := readMarks line
      let (foldersOnly, pattern) := readEnd rest
      (Glob.read (anchor bound pattern)).map fun globs => ⟨globs, includes, foldersOnly⟩

/-- The rules of an ignore file. -/
def ofText (text : String) : List IgnoreRule :=
  (text.splitOn "\n").filterMap fun line => ofLine line.toList

/-- What a rule says about a path, given from the folder on. -/
def verdict? (r : IgnoreRule) (isFolder : Bool) (path : List Char) : Option Bool :=
  if (!r.foldersOnly || isFolder) && r.globs.any (Glob.fits · path) then some !r.includes
  else none

/-- Whether some rules leave a path out, if they say anything about it. -/
def lastVerdict? (rules : List IgnoreRule) (isFolder : Bool) (path : List Char) : Option Bool :=
  rules.reverse.findSome? fun r => r.verdict? isFolder path

end IgnoreRule

end StaticStyle.Files
