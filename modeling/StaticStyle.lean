import StaticStyle.CommandLine
import StaticStyle.Config.Basic
import StaticStyle.Config.Reader
import StaticStyle.Css.Component
import StaticStyle.Css.Selector
import StaticStyle.Css.Sheet
import StaticStyle.Css.Token
import StaticStyle.Declaration.Basic
import StaticStyle.Declaration.Malformation
import StaticStyle.DevLoop
import StaticStyle.Digest
import StaticStyle.Error
import StaticStyle.Expression.Basic
import StaticStyle.Expression.Evaluation
import StaticStyle.Expression.Reading
import StaticStyle.Expression.Value
import StaticStyle.FileId
import StaticStyle.Files.Folder
import StaticStyle.Files.Glob
import StaticStyle.Files.Ignore
import StaticStyle.Files.View
import StaticStyle.Json.Reader
import StaticStyle.Json.Value
import StaticStyle.Main
import StaticStyle.Number.Binary64
import StaticStyle.Number.Notation
import StaticStyle.Number.Shortest
import StaticStyle.Ordered
import StaticStyle.Proofs.Declaration
import StaticStyle.Proofs.DevLoop.Addressing
import StaticStyle.Proofs.DevLoop.Atomicity
import StaticStyle.Proofs.DevLoop.Frame
import StaticStyle.Proofs.DevLoop.Freshness
import StaticStyle.Proofs.DevLoop.History
import StaticStyle.Proofs.DevLoop.Operations
import StaticStyle.Proofs.DevLoop.Roots
import StaticStyle.Proofs.DevLoop.Serving
import StaticStyle.Proofs.Expression.Composition
import StaticStyle.Proofs.Expression.Independence
import StaticStyle.Proofs.Expression.Meaning
import StaticStyle.Proofs.Expression.Running
import StaticStyle.Proofs.Ordered
import StaticStyle.Proofs.Registry.Growth
import StaticStyle.Proofs.Registry.History
import StaticStyle.Proofs.Registry.Log
import StaticStyle.Proofs.Running
import StaticStyle.Proofs.Scan
import StaticStyle.Proofs.Scan.Gathered
import StaticStyle.Proofs.Script.Agreement
import StaticStyle.Proofs.Script.Constants
import StaticStyle.Proofs.Script.Removal
import StaticStyle.Proofs.Script.Rules
import StaticStyle.Proofs.Session.Basic
import StaticStyle.Proofs.Session.Completeness
import StaticStyle.Proofs.Session.Coverage
import StaticStyle.Proofs.Session.Currency
import StaticStyle.Proofs.Session.Gaps
import StaticStyle.Proofs.Session.Recovery
import StaticStyle.Proofs.Sheet.Expansion
import StaticStyle.Proofs.Style.CanonicalText
import StaticStyle.Proofs.Syntax.Gap
import StaticStyle.Proofs.Syntax.ImportList
import StaticStyle.Proofs.Syntax.Running
import StaticStyle.Proofs.Syntax.Word
import StaticStyle.Proofs.Text.Splice
import StaticStyle.Registry
import StaticStyle.Scan
import StaticStyle.Script.Call
import StaticStyle.Script.Removal
import StaticStyle.Script.Replacement
import StaticStyle.Script.Rules
import StaticStyle.Sheet.Directive
import StaticStyle.Sheet.Generation
import StaticStyle.Sheet.Parser
import StaticStyle.Style
import StaticStyle.Syntax.Cursor
import StaticStyle.Syntax.Grammar.Bindings
import StaticStyle.Syntax.Grammar.Elements
import StaticStyle.Syntax.Grammar.Expressions
import StaticStyle.Syntax.Grammar.Functions
import StaticStyle.Syntax.Grammar.Modules
import StaticStyle.Syntax.Grammar.Names
import StaticStyle.Syntax.Grammar.Statements
import StaticStyle.Syntax.Grammar.Types
import StaticStyle.Syntax.Letter
import StaticStyle.Syntax.Module
import StaticStyle.Syntax.Operator
import StaticStyle.Syntax.Token
import StaticStyle.Syntax.Tree
import StaticStyle.Text.Blank
import StaticStyle.Text.Edit
import StaticStyle.Text.Quoted
import StaticStyle.Text.Search
import StaticStyle.Text.Span
import StaticStyle.Proofs.DevLoop.Order
import StaticStyle.Proofs.Scan.Repetition
import StaticStyle.Proofs.Expression.Correspondence
import StaticStyle.Proofs.Expression.Afresh
import StaticStyle.Proofs.Expression.Capture
import StaticStyle.Proofs.ThemeFunction
import StaticStyle.Proofs.Expression.Budget
import StaticStyle.Proofs.Expression.Levels
import StaticStyle.Proofs.Expression.Nesting
import StaticStyle.Proofs.Declaration.Nesting
import StaticStyle.Proofs.Expression.Grammar
import StaticStyle.Proofs.Expression.Holes
import StaticStyle.Proofs.Declaration.Reachability
import StaticStyle.Proofs.Expression.Conversion
import StaticStyle.Proofs.Style.Size
import StaticStyle.Proofs.Expression.Size
import StaticStyle.Proofs.Declaration.Size
import StaticStyle.Proofs.Syntax.Parenthesis
import StaticStyle.Proofs.Declaration.Single
import StaticStyle.Proofs.Syntax.Quoted
import StaticStyle.Proofs.Text.Offset
import StaticStyle.Proofs.Text.Edited
import StaticStyle.Proofs.Syntax.Scanning
import StaticStyle.Proofs.Syntax.Meets
import StaticStyle.Proofs.Syntax.Placement
import StaticStyle.Proofs.Syntax.Placement.Cursor
import StaticStyle.Proofs.Syntax.Placement.Reading
import StaticStyle.Proofs.Syntax.Placement.Covering
import StaticStyle.Proofs.Syntax.Placement.Names
import StaticStyle.Proofs.Syntax.Placement.Bindings
import StaticStyle.Proofs.Syntax.Placement.Types
import StaticStyle.Proofs.Syntax.Placement.Functions
import StaticStyle.Proofs.Syntax.Placement.Elements
import StaticStyle.Proofs.Syntax.Placement.Rows
import StaticStyle.Proofs.Syntax.Placement.Calls
import StaticStyle.Proofs.Syntax.Placement.Expressions
import StaticStyle.Proofs.Syntax.Placement.Statements
import StaticStyle.Proofs.Syntax.Placement.Imports
import StaticStyle.Proofs.Syntax.Placement.Modules
import StaticStyle.Proofs.Syntax.Placement.Module
import StaticStyle.Proofs.Syntax.Places
import StaticStyle.Proofs.Script.Sites
import StaticStyle.Proofs.Script.Extent
import StaticStyle.Proofs.Script.Verdicts
import StaticStyle.Proofs.Script.Edits
import StaticStyle.Proofs.Script.Policies
import StaticStyle.Proofs.Style.Hyphenation
import StaticStyle.Proofs.Sheet.Directives
import StaticStyle.Proofs.Css.TokenParts
import StaticStyle.Proofs.Css.Tokens
import StaticStyle.Proofs.Css.Brackets
import StaticStyle.Proofs.Css.Items
import StaticStyle.Proofs.Css.Soundness
import StaticStyle.Proofs.Css.Places
import StaticStyle.Proofs.Css.Names
import StaticStyle.Proofs.Sheet.Endings
import StaticStyle.Proofs.Sheet.Validity
import StaticStyle.Proofs.Css.NameValues
import StaticStyle.Proofs.Registry.ClassNames
import StaticStyle.Proofs.Text.Selection
import StaticStyle.Proofs.Script.NameList
import StaticStyle.Css.Name
import StaticStyle.Css.Condition
import StaticStyle.Css.AtRule
import StaticStyle.Proofs.Css.Order
import StaticStyle.Proofs.Sheet.Fitting
