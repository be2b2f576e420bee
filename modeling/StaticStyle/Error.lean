import StaticStyle.Declaration.Malformation

/-!
# Errors

What can go wrong between a source file and a stylesheet.  Each cause has one
constructor, and `StyleError.message` is the only place where its words stand.

A word in angle brackets stands for a cause that is not told in more detail.
-/

namespace StaticStyle

/-- An error of the build. -/
inductive StyleError where
  /-- A text is no style declaration. -/
  | malformed (text : String) (reason : Malformation)
  /-- A declaration needs a theme and there is none. -/
  | missingTheme
  /-- A script is no module of its language. -/
  | unparsableScript (file : String)
  /-- A style call of a script, given by its text, has no argument. -/
  | missingArgument (file call : String)
  /-- A declaration of a script is at fault. -/
  | inScript (file : String) (cause : StyleError)
  /-- A stylesheet is not valid. -/
  | invalidSheet (file reason : String)
  /-- The generated rules are not valid. -/
  | invalidRules (reason rules : String)
  /-- A script refers to a style that is not registered. -/
  | unknownStyle (file className key : String)
  /-- There is no file at a path. -/
  | fileNotFound (path : String)
  /-- A file cannot be read. -/
  | unreadable
  /-- A folder cannot be listed. -/
  | unlistable
  /-- A configuration is no valid text of its format. -/
  | invalidConfig
  /-- A configuration holds a value that is not allowed. -/
  | rejectedConfig (reason : String)
deriving DecidableEq, Repr

namespace StyleError

/-- The error in words. -/
def message : StyleError → String
  | .malformed text reason => "Malformed style declaration `" ++ text ++ "`: " ++ reason.message
  | .missingTheme => "Flow CSS theme is requested but not available"
  | .unparsableScript file => "Failed to extract styles from " ++ file ++ ": <syntax>"
  | .missingArgument file call =>
      "Failed to extract styles from " ++ file ++ ": `" ++ call ++ "` has no style argument"
  | .inScript file cause => "Failed to extract styles from " ++ file ++ ": " ++ message cause
  | .invalidSheet file reason => "Invalid source " ++ file ++ ": " ++ reason
  | .invalidRules reason _ => "Invalid generated CSS: " ++ reason
  | .unknownStyle file className key =>
      "Style not found in " ++ file ++ "; the scanner must have missed `" ++ key ++ "` ("
        ++ className ++ ")"
  | .fileNotFound path => "File " ++ path ++ " not found"
  | .unreadable => "<io>"
  | .unlistable => "<walk>"
  | .invalidConfig => "Config error: <json>"
  | .rejectedConfig reason => "Config error: " ++ reason

/-- The error inside the scripts that it was found in. -/
def rootCause : StyleError → StyleError
  | .inScript _ cause => rootCause cause
  | e => e

/-- The messages of an error and of the causes inside it, the outermost first. -/
def chain : StyleError → List String
  | .inScript file cause => (StyleError.inScript file cause).message :: chain cause
  | e => [e.message]

end StyleError

end StaticStyle
