/-
# `CommandLine.Command.Shown` — a command in words

`Command.shown` writes the main parts of a command for a reader of diagnostics, as records of
named fields; texts stand in quotes, so that blanks and odd characters can be told apart.
-/
import CommandLine.Command.Basic
import CommandLine.Text.Quoted

namespace CommandLine

open Text

/-- A record in words. -/
def shownRecord (name : String) (fields : List (String × Text)) : Text :=
  name.toList ++ '(' ::
    commaSeparated (fields.map fun field => field.1.toList ++ '=' :: field.2) ++ [')']

/-- A list in words. -/
def shownList (items : List Text) : Text := '[' :: commaSeparated items ++ [']']

/-- A text that may be missing, in words. -/
def shownOption : Option Text → Text
  | none => ['N', 'o', 'n', 'e']
  | some text => quoted text

/-- A truth value in words. -/
def shownBool (b : Bool) : Text := if b then ['T', 'r', 'u', 'e'] else ['F', 'a', 'l', 's', 'e']

/-- A node in words. -/
def Node.shown (n : Node) : Text :=
  shownRecord "AddressNode" [("type", quoted n.type), ("name", shownOption n.name)]

/-- An argument in words. -/
def Argument.shown (a : Argument) : Text :=
  shownRecord "ParsedArgument"
    [("name", shownOption a.name), ("value", shownOption a.value), ("start", integer a.start),
      ("end", integer a.stop), ("index", decimal a.index),
      ("in_property_list", shownBool a.inPropertyList)]

namespace Command

/-- The headers in words. -/
def shownHeaders (c : Command) : Text :=
  '{' :: commaSeparated (c.headers.map fun h => quoted h.1 ++ ':' :: ' ' :: quoted h.2) ++
    ['}']

/-- The main parts of the command in words. -/
def shown (c : Command) : Text :=
  shownRecord "ParsedCommand"
    [("address", shownList (c.address.map Node.shown)),
      ("operation_name", shownOption c.operation),
      ("arguments", shownList (c.arguments.map Argument.shown)),
      ("headers", c.shownHeaders)]

end Command
end CommandLine
