/-
# `CommandLine.Command.Format` — how the parts of a command are written

A format holds the separators that a command is written with.  A node type or name is written bare
unless it is empty or holds a character with a meaning in an address; then it is written in double
quotes, with backslashes before quotes and backslashes.
-/
import CommandLine.Text.Basic

namespace CommandLine

/-- The separators that a command is written with. -/
structure Format where
  /-- Between the parts of a line. -/
  partSeparator : Text := [' ']
  /-- Before each node of an address. -/
  nodeSeparator : Text := ['/']
  /-- Between an address and its operation. -/
  operationSeparator : Text := [':']
  /-- Between a name and its value. -/
  nameValueSeparator : Text := ['=']
  /-- Before the name of an argument. -/
  argumentMark : Text := ['-']
deriving DecidableEq

namespace Format

/-- The characters that cannot stand bare in a node. -/
def nodeSpecials : Text := [' ', '\t', '/', ':', '=', '"', '\\']

/-- A text with a backslash before each backslash and each double quote. -/
def escaped (text : Text) : Text :=
  text.flatMap fun c => if c = '\\' || c = '"' then ['\\', c] else [c]

/-- Whether a node type or name can be written as it is. -/
def isBare (text : Text) : Bool := !text.isEmpty && !text.any nodeSpecials.contains

/-- A node type or name, in quotes where it must be. -/
def node (text : Text) : Text :=
  if isBare text then text else '"' :: escaped text ++ ['"']

end Format
end CommandLine
