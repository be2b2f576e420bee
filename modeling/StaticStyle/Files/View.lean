import StaticStyle.Error
import StaticStyle.Ordered

/-!
# Files

What the build sees of the files of a project: which there are under a folder, in
a fixed order, and their texts.  A view does not change while an operation of the
build runs; an edit gives a new view.

`Files` is a project held in memory, where a folder is a prefix of names.
-/

namespace StaticStyle

/-- What can be seen of the files of a project. -/
structure FileView where
  /-- The files under a folder. -/
  list : String → Except StyleError (List String)
  /-- The text of a file. -/
  read : String → Except StyleError String

/-- Files in memory, in the order in which they were first written. -/
abbrev Files := Table String

namespace Files

/-- The text of a file. -/
def read (files : Files) (path : String) : Except StyleError String :=
  match files.get? path with
  | some text => .ok text
  | none => .error (.fileNotFound path)

/-- The files whose names start with a text. -/
def list (files : Files) (root : String) : List String :=
  files.names.filter fun path => root.toList.isPrefixOf path.toList

/-- What can be seen of files in memory. -/
def view (files : Files) : FileView := ⟨fun root => .ok (files.list root), files.read⟩

end Files

end StaticStyle
