/-
# `CommandLine.Grammar.Structured` — a structured value

A value is a text, a list in brackets, an object in braces, a byte string or several items
separated by `,`; an item may have a name before an `=`.  Brackets, braces and quotes have a
meaning only where a value can start, and elsewhere they are content.  A closing bracket or brace
ends the innermost list or object only.
-/
import CommandLine.Grammar.Shape
import CommandLine.Grammar.StateName

namespace CommandLine.Grammar

/-- What stands in a list of items. -/
def itemActions : List (Text × Action StateName) :=
  [upon '[' (.startValue .list), upon '{' (.startBraces .object .bytes),
    upon '"' (.startValue .valueQuotes), upon ',' .endItem, upon '=' .endName,
    upon '\\' (.escape .valueEscape)]

/-- The whole text. -/
def value : State StateName where
  name := StateName.value.label
  transitions := itemActions
  otherwise := .content
  frozen := true

/-- A list in brackets. -/
def list : State StateName where
  name := StateName.list.label
  transitions := itemActions ++ [upon ']' .leave]
  otherwise := .content
  onEnd := .notFinished [']']
  frozen := true

/-- An object in braces. -/
def object : State StateName where
  name := StateName.object.label
  transitions := itemActions ++ [upon '}' .leave]
  otherwise := .content
  onEnd := .notFinished ['}']
  frozen := true

/-- A byte string in braces. -/
def bytes : State StateName where
  name := StateName.bytes.label
  transitions := [upon '}' .leave]
  otherwise := .content
  onEnd := .notFinished ['}']
  frozen := true

/-- The character after a backslash. -/
def valueEscape : State StateName := .escaping StateName.valueEscape.label false

/-- A value in double quotes. -/
def valueQuotes : State StateName :=
  .quoting StateName.valueQuotes.label ['"'] .valueEscape false true none

end CommandLine.Grammar
