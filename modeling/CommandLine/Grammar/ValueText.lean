/-
# `CommandLine.Grammar.ValueText` — the text of a value on a command line

A value may hold parts in double quotes, back quotes, brackets, parentheses and braces; inside
them gaps and separators are content, and delimiters nest.  A backslash takes the next character
as it is.  All of it, delimiters and backslashes included, is the text of the value.  Nothing is
substituted inside back quotes.
-/
import CommandLine.Grammar.Shape
import CommandLine.Grammar.StateName

namespace CommandLine.Grammar

/-- The characters that open a part of a value. -/
def valueOpeners : List (Text × Action StateName) :=
  [upon '[' (.enter .brackets), upon '(' (.enter .parentheses), upon '{' (.enter .braces),
    upon '"' (.enter .quotes), upon '\x60' (.enter .backQuotes), upon '\\' (.escape .escape)]

/-- The character after a backslash. -/
def escape : State StateName := .escaping StateName.escape.label true

/-- A part in double quotes. -/
def quotes : State StateName := .quoting StateName.quotes.label ['"'] .escape true true none

/-- A part in back quotes. -/
def backQuotes : State StateName :=
  .quoting StateName.backQuotes.label ['\x60'] .escape true true (some false)

/-- A part between delimiters of one kind, in which every kind can open. -/
def group (name : StateName) (closing : Char) : State StateName :=
  let base := State.delimited name.label [closing]
  { base with transitions := base.transitions ++ valueOpeners, frozen := true }

/-- A part in brackets. -/
def brackets : State StateName := group .brackets ']'

/-- A part in parentheses. -/
def parentheses : State StateName := group .parentheses ')'

/-- A part in braces. -/
def braces : State StateName := group .braces '}'

end CommandLine.Grammar
