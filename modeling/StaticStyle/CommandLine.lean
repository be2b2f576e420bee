import StaticStyle.Config.Reader
import StaticStyle.Css.Sheet
import StaticStyle.DevLoop
import StaticStyle.Files.Folder

/-!
# The command line

One build: scan the scripts under a folder and put their styles into a stylesheet,
which is printed or written to a file.

`Arguments.ofList` reads the arguments.  `run` does the work on a `Platform`, which
gives access to files by means of a monad, so the same steps run on real files
and on a tree in memory (`Files.Node.platform`).  Every failure ends with one
line on the error output and the exit code 1.
-/

namespace StaticStyle

open StaticStyle.Files (Node PathFault)

namespace CommandLine

/-! ## Arguments -/

/-- What is shown to someone who needs help. -/
def usage : String := "usage: flow-css --root <dir> [--config <file>] [--out <file>] <stylesheet>"

/-- The arguments of a build. -/
structure Arguments where
  /-- The folder to scan. -/
  root : Option String
  /-- The file of the configuration. -/
  config : Option String
  /-- The file to write. -/
  out : Option String
  /-- The stylesheet to generate. -/
  stylesheet : Option String
deriving DecidableEq, Repr

namespace Arguments

/-- No arguments at all. -/
def none : Arguments := ⟨.none, .none, .none, .none⟩

/-- The error of an option at the end of the arguments. -/
def missingValue (option : String) : Except String Arguments :=
  .error ("missing value for " ++ option)

/-- Reads arguments after those that have been read. -/
def readAfter (a : Arguments) : List String → Except String Arguments
  | [] => .ok a
  | ["--root"] => missingValue "--root"
  | ["--config"] => missingValue "--config"
  | ["--out"] => missingValue "--out"
  | "--root" :: value :: rest => readAfter { a with root := some value } rest
  | "--config" :: value :: rest => readAfter { a with config := some value } rest
  | "--out" :: value :: rest => readAfter { a with out := some value } rest
  | arg :: rest =>
      if arg = "-h" ∨ arg = "--help" then .error usage
      else if arg.startsWith "--" then .error ("unknown argument '" ++ arg ++ "'. " ++ usage)
      else if a.stylesheet.isSome then .error ("only one stylesheet may be given. " ++ usage)
      else readAfter { a with stylesheet := some arg } rest

/-- Reads the arguments of a build.  Of an option that is repeated the last value
counts. -/
def ofList (args : List String) : Except String Arguments := readAfter none args

end Arguments

/-! ## Platforms -/

/-- Access to files. -/
structure Platform (m : Type → Type) where
  /-- The text of a file, or why there is none. -/
  readText : String → m (Except String String)
  /-- What the build sees of the files of a folder. -/
  view : String → m FileView
  /-- Creates a folder and those that lead to it; what went wrong, if anything did. -/
  createFolder : String → m (Option String)
  /-- Writes a file; what went wrong, if anything did. -/
  writeText : String → String → m (Option String)

/-! ## Running -/

/-- The end of a run. -/
structure Outcome where
  /-- The exit code. -/
  exit : Nat
  /-- What is printed. -/
  stdout : String
  /-- What is printed on the error output. -/
  stderr : String
deriving DecidableEq, Repr

/-- A text with what it happened to, the outermost first. -/
def explain (texts : List String) : String := ": ".intercalate texts

/-- The end of a run that failed. -/
def failed (reason : String) : Outcome := ⟨1, "", "[flow-css] " ++ reason ++ "\n"⟩

/-- The end of a run that printed a text. -/
def printed (text : String) : Outcome := ⟨0, text, ""⟩

/-- A path, given from its end on, without the slashes and the single dots that it
ends with. -/
def dropTrail : List Char → List Char
  | '/' :: rest => dropTrail rest
  | '.' :: '/' :: rest => dropTrail rest
  | rest => rest

/-- The folder that a path lies in, if the path names one. -/
def parentOf (path : String) : String :=
  String.ofList (dropTrail ((dropTrail path.toList.reverse).dropWhile (· != '/'))).reverse

example : ["a/b/", "a//./b", "./a", "a"].map parentOf = ["a", "a", ".", ""] := by cbv

variable {m : Type → Type} [Monad m]

/-- The configuration of a run. -/
def configOf (p : Platform m) (a : Arguments) : ExceptT String m Config := do
  let config ← match a.config with
    | none => pure Config.default
    | some path =>
        let explained (reason : String) : ExceptT String m Config :=
          throw (explain ["failed to load config '" ++ path ++ "'", reason])
        match ← ExceptT.lift (p.readText path) with
        | .error reason =>
            explained (explain ["Config error: failed to read '" ++ path ++ "'", reason])
        | .ok text =>
            match Config.read text with
            | .ok config => pure config
            | .error e => explained (explain e.chain)
  return { config with root := a.root.getD config.root }

/-- The stylesheet of a run and its text. -/
def stylesheetOf (p : Platform m) (a : Arguments) : ExceptT String m (String × String) := do
  match a.stylesheet with
  | none => throw ("required argument missing: <stylesheet>. " ++ usage)
  | some path =>
      match ← ExceptT.lift (p.readText path) with
      | .ok text => return (path, text)
      | .error reason => throw (explain ["failed to read stylesheet '" ++ path ++ "'", reason])

/-- The stylesheet with the styles of all scripts. -/
def build (c : Config) (view : FileView) (path text : String) : Except String String := do
  let (scanned, s) := (DevLoop.start c view).run DevLoop.initial
  match scanned with
  | .error e => throw (explain ("scan failed" :: e.chain))
  | .ok _ =>
      let file := FileId.normalize path
      match ((DevLoop.generate c Css.parser text file).run s).1 with
      | .error e => throw (explain (("failed to generate '" ++ file ++ "'") :: e.chain))
      | .ok output => return output.code

/-- Writes a file and the folders that lead to it. -/
def writeOut (p : Platform m) (path text : String) : ExceptT String m Unit := do
  let parent := parentOf path
  if parent ≠ "" then
    if let some reason ← ExceptT.lift (p.createFolder parent) then
      throw (explain ["failed to create output dir '" ++ parent ++ "'", reason])
  if let some reason ← ExceptT.lift (p.writeText path text) then
    throw (explain ["failed to write '" ++ path ++ "'", reason])

/-- The steps of a run.  The result is what is to be printed. -/
def steps (p : Platform m) (args : List String) : ExceptT String m String := do
  let a ← (Arguments.ofList args : Except String Arguments)
  let config ← configOf p a
  let (path, text) ← stylesheetOf p a
  let view ← ExceptT.lift (p.view config.root)
  let css ← (build config view path text : Except String String)
  match a.out with
  | some out => do
      writeOut p out css
      return ""
  | none => return css

/-- Runs a build. -/
def run (p : Platform m) (args : List String) : m Outcome := do
  match ← (steps p args).run with
  | .ok text => return printed text
  | .error reason => return failed reason

end CommandLine

/-! ## A tree as a platform -/

namespace Files.Node

/-- Changes a tree unless that fails. -/
def update (change : Node → Except PathFault Node) : StateM Node (Option String) := do
  match change (← get) with
  | .ok tree => do
      set tree
      return none
  | .error fault => return some fault.message

/-- A tree in memory as the platform of a run. -/
def platform : CommandLine.Platform (StateM Node) where
  readText path := return ((← get).readText path).mapError PathFault.message
  view _ := return (← get).view
  createFolder path := update (createFolder path)
  writeText path text := update (writeText path text)

end Files.Node

end StaticStyle
