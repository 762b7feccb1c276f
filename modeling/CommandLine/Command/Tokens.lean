/-
# `CommandLine.Command.Tokens` — the token that is being read

The characters of a token are gathered in a buffer, together with where the token started and, for
a name with a value, the name and the places of the separator and of the value.
-/
import CommandLine.Text.Basic

namespace CommandLine

/-- The token that is being read. -/
structure Tokens where
  /-- The characters of the token so far. -/
  buffer : Text := []
  /-- Where the token started. -/
  start : Int := 0
  /-- The name, once the separator of name and value has been read. -/
  name : Option Text := none
  /-- Where that separator stands. -/
  separator : Option Int := none
  /-- Where the value started. -/
  valueStart : Option Int := none
deriving DecidableEq

namespace Tokens

/-- Adds characters to the token. -/
def append (t : Tokens) (text : Text) : Tokens := { t with buffer := t.buffer ++ text }

/-- The characters gathered, and the tokens without them. -/
def take (t : Tokens) : Text × Tokens := (t.buffer, { t with buffer := [] })

/-- Forgets everything but the start. -/
def clear (t : Tokens) : Tokens := { start := t.start }

/-- The start of a new token. -/
def startAt (location : Int) : Tokens := { start := location }

end Tokens
end CommandLine
