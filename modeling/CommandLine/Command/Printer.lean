/-
# `CommandLine.Command.Printer` — a command written as a line

`Command.toLine` writes a command as a line that does the same: separators are those of the
command's format and values are as they were typed.
-/
import CommandLine.Command.Basic

namespace CommandLine

namespace Format

/-- A node as part of an address. -/
def addressNode (f : Format) (n : Node) : Text :=
  f.nodeSeparator ++ node n.type ++
    match n.name with
    | some name => f.nameValueSeparator ++ node name
    | none => []

/-- An argument; there is nothing to write for one that has neither a name nor a value. -/
def argument? (f : Format) (name value : Option Text) : Option Text :=
  match name, value with
  | none, value => value
  | some name, none => some name
  | some name, some value => some (name ++ f.nameValueSeparator ++ value)

/-- Some of the arguments of a command. -/
def arguments (f : Format) (arguments : List Argument) : List Text :=
  arguments.filterMap fun a => f.argument? a.name a.value

/-- The name of the operation after its separator, or the name of the command. -/
def operation (f : Format) (c : Command) : Text :=
  match c.operation with
  | none => []
  | some name =>
    if name.isEmpty then []
    else if c.isOperation then f.operationSeparator ++ name
    else name

/-- The property list, if the command has one. -/
def propertyList (f : Format) (c : Command) : Text :=
  let properties := c.arguments.filter Argument.inPropertyList
  if properties.isEmpty && !c.hasPropertyList then []
  else '(' :: [','].intercalate (f.arguments properties) ++ [')']

/-- The header list, if the command has headers. -/
def headerList (f : Format) (c : Command) : Text :=
  if c.headers.isEmpty then []
  else
    '{' :: [';', ' '].intercalate
      (c.headers.map fun h => h.1 ++ f.nameValueSeparator ++ h.2) ++ ['}']

/-- What comes before the arguments of a command. -/
def head (f : Format) (c : Command) : Text :=
  c.address.flatMap f.addressNode ++ f.operation c ++ f.propertyList c ++ f.headerList c

/-- The output target, if the command has one. -/
def target (c : Command) : List Text :=
  match c.outputTarget with
  | none => []
  | some target => if target.isEmpty then [] else ['>' :: ' ' :: target]

/-- A command as a line. -/
def command (f : Format) (c : Command) : Text :=
  let head := f.head c
  f.partSeparator.intercalate
    ((if head.isEmpty then [] else [head]) ++
      f.arguments (c.arguments.filter fun a => !a.inPropertyList) ++ target c)

end Format

namespace Command

/-- The command as a line, in its own format or in the usual one. -/
def toLine (c : Command) : Text := (c.format.getD {}).command c

end Command
end CommandLine
