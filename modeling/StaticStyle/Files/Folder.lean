import StaticStyle.FileId
import StaticStyle.Files.Ignore
import StaticStyle.Files.View

/-!
# Folders

A tree of folders and files, with paths that lead to its nodes, and the walk that
lists its files.

`Node.listing` goes through each folder in the order of the names.  It passes over
folders with the name `.git` and over what the ignore files on the way leave out;
of several ignore files the innermost that says anything decides.
-/

namespace StaticStyle.Files

/-! ## Trees -/

/-- A file or a folder. -/
inductive Node where
  /-- A file with its text, if it is one. -/
  | file (text : Option String)
  /-- A folder; its entries are in the order of their names. -/
  | folder (entries : List (String × Node))
  /-- Something else. -/
  | other
deriving Repr, Inhabited

/-- Why a path does not lead to what is looked for. -/
inductive PathFault where
  /-- There is nothing at the path. -/
  | missing
  /-- A part of the path that has to be a folder is none. -/
  | notFolder
  /-- There is a folder at the path. -/
  | isFolder
  /-- There is something at the path already. -/
  | alreadyThere
  /-- The file at the path holds no text. -/
  | notText
deriving DecidableEq, Repr

/-- The fault in words. -/
def PathFault.message : PathFault → String
  | .missing => "No such file or directory (os error 2)"
  | .notFolder => "Not a directory (os error 20)"
  | .isFolder => "Is a directory (os error 21)"
  | .alreadyThere => "File exists (os error 17)"
  | .notText => "stream did not contain valid UTF-8"

namespace Node

/-! ## Paths -/

/-- Follows a part of a path from those passed so far, the last first. -/
def stepPath (passed : Option (List String)) (part : String) : Option (List String) :=
  if part = "" ∨ part = "." then passed
  else if part = ".." then
    match passed with
    | some (_ :: rest) => some rest
    | _ => none
  else passed.map (part :: ·)

/-- The names that a path leads through, if it stays within the tree. -/
def partsOf (path : String) : Option (List String) :=
  if path = "" ∨ path.startsWith "/" then none
  else ((path.splitOn "/").foldl stepPath (some [])).map List.reverse

/-- The node that some names lead to. -/
def find? : List String → Node → Except PathFault Node
  | [], node => .ok node
  | name :: names, .folder entries =>
      match entries.lookup name with
      | some node => find? names node
      | none => .error .missing
  | _ :: _, _ => .error .notFolder

/-- The node at a path. -/
def at? (path : String) (tree : Node) : Except PathFault Node :=
  match partsOf path with
  | none => .error .missing
  | some parts =>
      match find? parts tree with
      | .ok (.folder entries) => .ok (.folder entries)
      | .ok node => if path.endsWith "/" then .error .notFolder else .ok node
      | .error fault => .error fault

/-- The text of the file at a path. -/
def readText (path : String) (tree : Node) : Except PathFault String :=
  match tree.at? path with
  | .ok (.file (some text)) => .ok text
  | .ok (.file none) => .error .notText
  | .ok (.folder _) => .error .isFolder
  | .ok .other => .error .missing
  | .error fault => .error fault

/-! ## Changes -/

/-- Sets an entry of a folder, at the place of its name. -/
def putEntry (name : String) (node : Node) : List (String × Node) → List (String × Node)
  | [] => [(name, node)]
  | (n, old) :: rest =>
      if n = name then (n, node) :: rest
      else if name < n then (name, node) :: (n, old) :: rest
      else (n, old) :: putEntry name node rest

/-- The tree with folders along some names. -/
def makeFolders : List String → Node → Except PathFault Node
  | [], .folder entries => .ok (.folder entries)
  | [], _ => .error .alreadyThere
  | name :: names, .folder entries =>
      match makeFolders names ((entries.lookup name).getD (.folder [])) with
      | .ok node => .ok (.folder (putEntry name node entries))
      | .error fault => .error fault
  | _ :: _, _ => .error .notFolder

/-- The tree with a file where some names lead, whose folder has to be there. -/
def putFile (text : String) : List String → Node → Except PathFault Node
  | [], _ => .error .isFolder
  | [name], .folder entries =>
      match entries.lookup name with
      | some (.folder _) => .error .isFolder
      | _ => .ok (.folder (putEntry name (.file (some text)) entries))
  | name :: names, .folder entries =>
      match entries.lookup name with
      | none => .error .missing
      | some inner =>
          match putFile text names inner with
          | .ok node => .ok (.folder (putEntry name node entries))
          | .error fault => .error fault
  | _ :: _, _ => .error .notFolder

/-- The tree with a folder at a path, and with the folders that lead to it. -/
def createFolder (path : String) (tree : Node) : Except PathFault Node :=
  match partsOf path with
  | none => .error .missing
  | some parts => makeFolders parts tree

/-- The tree with a text in the file at a path. -/
def writeText (path text : String) (tree : Node) : Except PathFault Node :=
  match partsOf path with
  | none => .error .missing
  | some parts =>
      if path.endsWith "/" then
        match find? parts tree with
        | .ok (.file _) => .error .notFolder
        | _ => .error .isFolder
      else putFile text parts tree

/-- The tree of some files, given by their paths and texts. -/
def ofFiles (files : List (String × String)) : Node :=
  files.foldl (fun tree (path, text) =>
    let parts := (partsOf path).getD []
    ((makeFolders parts.dropLast tree).bind (putFile text parts)).toOption.getD tree) (.folder [])

/-! ## Walking -/

/-- The rules of a folder that the walk has come through. -/
structure IgnoreFrame where
  /-- The rules. -/
  rules : List IgnoreRule
  /-- The path from that folder on, with a slash at its end. -/
  below : List Char

/-- Whether an entry of the folder that the walk is in is left out. -/
def isLeftOut (frames : List IgnoreFrame) (isFolder : Bool) (name : String) : Bool :=
  (frames.findSome? fun f =>
    IgnoreRule.lastVerdict? f.rules isFolder (f.below ++ name.toList)).getD false

/-- The frames after a step into a folder. -/
def enter (name : String) (frames : List IgnoreFrame) : List IgnoreFrame :=
  frames.map fun f => { f with below := f.below ++ name.toList ++ ['/'] }

/-- The rules that a folder holds. -/
def rulesOf (entries : List (String × Node)) : List IgnoreRule :=
  match entries.lookup IgnoreRule.fileName with
  | some (.file (some text)) => IgnoreRule.ofText text
  | _ => []

/-- The path of an entry of a folder. -/
def joinPath (path name : String) : String :=
  if path.endsWith "/" then path ++ name else path ++ "/" ++ name

mutual

/-- The files under a node that is not left out, with their texts. -/
def listing (path : String) (frames : List IgnoreFrame) : Node → List (String × Option String)
  | .file text => [(FileId.normalize path, text)]
  | .folder entries => listEntries path (⟨rulesOf entries, []⟩ :: frames) entries
  | .other => []

/-- The files under the entries of a folder. -/
def listEntries (path : String) (frames : List IgnoreFrame) :
    List (String × Node) → List (String × Option String)
  | [] => []
  | (name, node) :: rest =>
      let isFolder := match node with
        | .folder _ => true
        | _ => false
      if name = ".git" ∨ isLeftOut frames isFolder name then listEntries path frames rest
      else listing (joinPath path name) (enter name frames) node ++ listEntries path frames rest

end

/-! ## Views -/

/-- The files under a path, if it leads somewhere. -/
def listFiles (root : String) (tree : Node) : Except StyleError (List String) :=
  match tree.at? root with
  | .ok node => .ok ((listing root [] node).map (·.1))
  | .error _ => .error .unlistable

/-- The text of a file of the build. -/
def contents (path : String) (tree : Node) : Except StyleError String :=
  match tree.readText path with
  | .ok text => .ok text
  | .error .missing => .error (.fileNotFound path)
  | .error _ => .error .unreadable

/-- What can be seen of a tree. -/
def view (tree : Node) : FileView := ⟨tree.listFiles, tree.contents⟩

end Node

end StaticStyle.Files
