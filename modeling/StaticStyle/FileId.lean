import StaticStyle.Syntax.Cursor
import StaticStyle.Text.Search

/-!
# File names

What the name of a file says about it.  A name may carry a query after a question
mark; the path is what stands before it.  The extension of the path decides
whether the file is a script or a stylesheet, and which language a script is
written in.
-/

namespace StaticStyle.FileId

open StaticStyle.Text
open StaticStyle.Syntax (Language)

/-! ## Parts of a name -/

/-- The part of a name before the first question mark. -/
def path (id : String) : List Char := (cut '?' id.toList).1

/-- The part of a name after the first question mark. -/
def query (id : String) : List Char := ((cut '?' id.toList).2).getD []

/-- The keys of a query, with the value after an equals sign or without. -/
def queryKeys (id : String) : List String :=
  (pieces '&' (query id)).map fun pair => String.ofList (cut '=' pair).1

/-- The part after the last dot of the last part of a path. -/
def extension? (path : List Char) : Option String :=
  let name := (pieces '/' path).getLast?.getD []
  (cutLast? '.' name).map fun (_, e) => String.ofList e

/-- A path with slashes only. -/
def normalize (path : String) : String :=
  String.ofList (path.toList.map fun c => if c = '\\' then '/' else c)

/-! ## Kinds -/

/-- What the build does with a file. -/
inductive Kind where
  | script
  | stylesheet
  | other
deriving DecidableEq, Repr

/-- The extensions of scripts. -/
def scriptExtensions : List String := ["js", "jsx", "ts", "tsx"]

/-- The query keys that ask for something else than a stylesheet. -/
def foreignQueries : List String :=
  ["url", "raw", "worker", "sharedworker", "inline", "transform-only"]

/-- Part of the path of files that a development server has prepared. -/
def preparedFolder : String := "/.vite/"

/-- The mark of a stylesheet that is part of another file. -/
def embeddedSheet : String := "&lang.css"

/-- The kind of a file. -/
def kindOf (id : String) : Kind :=
  if occursIn preparedFolder.toList id.toList then .other
  else
    let isSheet := occursIn embeddedSheet.toList id.toList
    let sheet : Kind := if (queryKeys id).any foreignQueries.contains then .other else .stylesheet
    match extension? (path id) with
    | some e =>
        if scriptExtensions.contains e then .script
        else if e = "css" || isSheet then sheet
        else .other
    | none => if isSheet then sheet else .other

/-! ## Languages -/

/-- The last part of a path that names something. -/
def baseName (path : List Char) : List Char :=
  ((pieces '/' path).filter fun p => p ≠ [] && p ≠ ['.']).getLast?.getD []

/-- The end of the name of a file of declarations, in front of its extension. -/
def declarationsMark : String := ".d"

/-- The language of a script by its extension.  A name that starts with its only dot
has none, and what is not known has types and elements. -/
def language (id : String) : Language :=
  match cutLast? '.' (baseName (path id)) with
  | some (c :: stem, e) =>
      let e := String.ofList e
      if ["js", "jsx", "mjs", "cjs"].contains e then ⟨false, true, false⟩
      else if ["ts", "mts", "cts"].contains e then
        ⟨true, false, declarationsMark.toList.isSuffixOf (c :: stem)⟩
      else ⟨true, true, false⟩
  | _ => ⟨true, true, false⟩

/-! ## Tests -/

example : kindOf "/src/a.jsx?v=123" = .script := by decide
example : kindOf "a.css?url=1" = .other ∧ kindOf "a.css?x=url" = .stylesheet := by decide
example : language "a.ts?x=1" = ⟨true, false, false⟩ ∧ language ".ts" = ⟨true, true, false⟩ := by decide
example : language "a.d.mts" = ⟨true, false, true⟩ ∧ language "a.d.tsx" = ⟨true, true, false⟩ := by decide

end StaticStyle.FileId
