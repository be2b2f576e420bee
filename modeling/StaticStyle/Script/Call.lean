import StaticStyle.Declaration.Basic
import StaticStyle.FileId
import StaticStyle.Text.Search

/-!
# Style calls

What a script has to do with styles: its calls of the style function, the imports
of that function, how often it is referred to otherwise, and the constants that
the arguments of the calls may refer to.

A call counts when the text of its callee is the one that is looked for.  What is
inside such a call is part of its argument and is not looked at, nor is what is
inside an import.  `outermost` walks a tree in the order of the text and lists
the nodes that count.
-/

namespace StaticStyle

open StaticStyle.Syntax (Tree Kind)
open StaticStyle.Text (Span slice? occursIn)
open StaticStyle.Expression (Limits)

/-- The function whose calls are styles. -/
structure StyleFunction where
  /-- The text of the callee. -/
  callee : String
  /-- A part of the name of the module that it is imported from. -/
  source : String
deriving DecidableEq, Repr

/-- A call of the style function. -/
structure StyleCall where
  /-- Where the call stands. -/
  span : Span
  /-- The text of the first argument. -/
  argument : Option String
  /-- The text of the whole call. -/
  text : String
deriving DecidableEq, Repr

/-- An import of the style function. -/
structure StyleImport where
  /-- Where the import stands. -/
  declaration : Span
  /-- Where the name of the function stands in it. -/
  specifier : Span
  /-- How many names the import introduces. -/
  specifiers : Nat
deriving DecidableEq, Repr

/-- What a script has to do with styles. -/
structure Script where
  /-- The calls of the style function in the order of the text. -/
  calls : List StyleCall
  /-- The constants at the top that can be evaluated. -/
  constants : Constants
  /-- The imports of the style function. -/
  imports : List StyleImport
  /-- The number of references to the style function outside its calls. -/
  strayReferences : Nat
deriving Repr

/-! ## Walking a tree -/

mutual

/-- The outermost nodes of a tree that have a property, in the order of the text,
those inside a node with the property `closed` left out. -/
def outermost (wanted closed : Tree → Bool) : Tree → List Tree
  | .node k s cs =>
      if wanted (.node k s cs) then [.node k s cs]
      else if closed (.node k s cs) then []
      else outermostOf wanted closed cs

/-- The outermost nodes of some trees that have a property. -/
def outermostOf (wanted closed : Tree → Bool) : List Tree → List Tree
  | [] => []
  | t :: ts => outermost wanted closed t ++ outermostOf wanted closed ts

end

/-! ## Kinds of nodes -/

/-- The text of a node. -/
def textOf (source : List Char) (t : Tree) : String :=
  String.ofList ((slice? source t.span).getD [])

/-- Whether a node imports names from another module. -/
def isImport (t : Tree) : Bool :=
  match t.kind with
  | .importDeclaration _ _ => true
  | _ => false

/-- Whether a node is a reference to a name. -/
def refersTo (name : String) (t : Tree) : Bool := t.kind == .reference name

/-- Whether a node is a call of the style function. -/
def StyleFunction.isCalledBy (f : StyleFunction) (source : List Char) (t : Tree) : Bool :=
  match t with
  | .node (.call _) _ (callee :: _) => textOf source callee == f.callee
  | _ => false

/-! ## Calls and references -/

/-- A call as the library keeps it.  The first argument stands after the callee and
the type arguments. -/
def StyleCall.ofTree (source : List Char) (t : Tree) : StyleCall :=
  ⟨t.span, (t.children.drop 2).head?.map (textOf source), textOf source t⟩

/-- The calls of the style function and the references to it that stand outside of
them. -/
def StyleFunction.sites (f : StyleFunction) (source : List Char) (program : Tree) : List Tree :=
  outermost (fun t => f.isCalledBy source t || refersTo f.callee t) isImport program

/-! ## Imports -/

/-- Whether a node introduces a name from another module. -/
def isSpecifier (t : Tree) : Bool :=
  match t.kind with
  | .importName _ => true
  | .importDefault => true
  | .importNamespace => true
  | _ => false

/-- Whether a node imports a name from another module under a local name. -/
def importsAs (name : String) (t : Tree) : Bool :=
  match t with
  | .node (.importName _) _ [_, local_] => local_.kind == .binding name
  | _ => false

/-- The imports of the style function in an import declaration. -/
def StyleFunction.importsOf (f : StyleFunction) (t : Tree) : List StyleImport :=
  match t.kind with
  | .importDeclaration source _ =>
      if occursIn f.source.toList source.toList then
        let specifiers := t.children.filter isSpecifier
        (specifiers.filter (importsAs f.callee)).map fun s =>
          ⟨t.span, s.span, specifiers.length⟩
      else []
  | _ => []

/-! ## Constants -/

/-- The name that a pattern binds, if it is no more than a name. -/
def boundName? (pattern : Tree) : Option String :=
  match pattern with
  | .node (.binding name) _ _ => some name
  | .node (.typed _ _) _ (.node (.binding name) _ _ :: _) => some name
  | _ => none

/-- Adds the constant of a declarator, if it can be evaluated. -/
def addConstant (constants : Constants) (declarator : Tree) : Constants :=
  match declarator.children with
  | [pattern, initial] =>
      match boundName? pattern with
      | some name =>
          if initial.isAbsent then constants
          else match Expression.ofTree initial with
            | .ok e => constants.put name e
            | .error _ => constants
      | none => constants
  | _ => constants

/-- Adds the constants that a statement declares. -/
def addConstants (constants : Constants) : Tree → Constants
  | .node (.variableList kind) _ declarators =>
      if kind = "const" then declarators.foldl addConstant constants else constants
  | .node .exportDeclaration _ [d] => addConstants constants d
  | .node .declare _ [d] => addConstants constants d
  | _ => constants

/-! ## Scripts -/

/-- What a program has to do with styles. -/
def Script.ofTree (f : StyleFunction) (source : List Char) (program : Tree) : Script :=
  let sites := f.sites source program
  { calls := (sites.filter (f.isCalledBy source)).map (StyleCall.ofTree source)
    constants := program.children.foldl addConstants []
    imports := (outermost isImport (f.isCalledBy source) program).flatMap f.importsOf
    strayReferences := (sites.filter (refersTo f.callee)).length }

/-- What a script has to do with styles.  The name of the file says in which language
it is written. -/
def Script.read (f : StyleFunction) (code file : String) : Except StyleError Script :=
  let source := code.toList
  match Syntax.parseModule (FileId.language file) source with
  | some program => .ok (Script.ofTree f source program)
  | none => .error (.unparsableScript file)

/-- The declaration of a call. -/
def Script.evaluate (script : Script) (call : StyleCall) (file : String) (limits : Limits) :
    Except StyleError Declaration :=
  match call.argument with
  | none => .error (.missingArgument file call.text)
  | some argument => (Declaration.read argument script.constants limits).mapError (.inScript file)

end StaticStyle
