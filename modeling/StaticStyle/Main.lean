import StaticStyle.CommandLine

/-!
# The program

Runs the command line on the real files.  A folder is read as a tree before the
build looks at it.
-/

namespace StaticStyle

open StaticStyle.Files (Node PathFault)

/-- An error of the system in words. -/
def systemMessage : IO.Error → String
  | .noFileOrDirectory .. => PathFault.missing.message
  | .inappropriateType .. => PathFault.isFolder.message
  | .alreadyExists .. => PathFault.alreadyThere.message
  | e => toString e

/-- Tries something and answers with what went wrong, if anything did. -/
def attempt (x : IO Unit) : IO (Option String) := do
  try
    x
    return none
  catch e => return some (systemMessage e)

/-- Reads a file or a folder as a tree. -/
partial def readNode (entry : IO.FS.DirEntry) : IO (String × Node) := do
  let kind := (← entry.path.symlinkMetadata).type
  match kind with
  | .file => do
      let text ← try some <$> IO.FS.readFile entry.path catch _ => pure none
      return (entry.fileName, .file text)
  | .dir => do
      let nodes ← (← entry.path.readDir).toList.mapM readNode
      return (entry.fileName, .folder (nodes.mergeSort fun a b => a.1 ≤ b.1))
  | _ => return (entry.fileName, .other)

/-- What the build sees of the files of a folder. -/
def viewOf (root : String) : IO FileView := do
  try
    let path ← IO.FS.realPath root
    let nodes ← (← path.readDir).toList.mapM readNode
    let tree := Node.folder (nodes.mergeSort fun a b => a.1 ≤ b.1)
    let files := Node.listing root [] tree
    let read (file : String) : Except StyleError String :=
      match files.lookup file with
      | some (some text) => .ok text
      | some none => .error .unreadable
      | none => .error (.fileNotFound file)
    return ⟨fun _ => .ok (files.map (·.1)), read⟩
  catch _ => return ⟨fun _ => .error .unlistable, fun file => .error (.fileNotFound file)⟩

/-- The real files. -/
def system : CommandLine.Platform IO where
  readText path := do
    try return .ok (← IO.FS.readFile path)
    catch e => return .error (systemMessage e)
  view := viewOf
  createFolder path := attempt (IO.FS.createDirAll path)
  writeText path text := attempt (IO.FS.writeFile path text)

end StaticStyle

/-- The program. -/
def main (args : List String) : IO UInt32 := do
  let outcome ← StaticStyle.CommandLine.run StaticStyle.system args
  IO.print outcome.stdout
  IO.eprint outcome.stderr
  return outcome.exit.toUInt32
