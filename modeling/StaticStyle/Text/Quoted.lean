/-!
# Quoted strings

The double-quoted form of a text in a script.  The quote and the backslash are
escaped with a backslash, and so are the characters that may not stand in a
literal or that would be easy to lose: the line feed, the carriage return, the
tab and the two Unicode line separators.  Every other character stands for
itself, so a text that holds none of these is quoted verbatim.
-/

namespace StaticStyle.Text

/-- How one character is written between double quotes. -/
def escapeChar : Char → List Char
  | '"' => ['\\', '"']
  | '\\' => ['\\', '\\']
  | '\n' => ['\\', 'n']
  | '\r' => ['\\', 'r']
  | '\t' => ['\\', 't']
  | '\u2028' => ['\\', 'u', '2', '0', '2', '8']
  | '\u2029' => ['\\', 'u', '2', '0', '2', '9']
  | c => [c]

/-- A text as it is written between double quotes. -/
def escape (s : List Char) : List Char := s.flatMap escapeChar

/-- A text as a double-quoted string literal. -/
def quoted (s : List Char) : List Char := '"' :: escape s ++ ['"']

example : quoted "a\"b".toList = "\"a\\\"b\"".toList := by decide

end StaticStyle.Text
