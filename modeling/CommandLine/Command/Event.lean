/-
# `CommandLine.Command.Event` — what a command line is made of

A command line is reported to a handler as a sequence of events, one for each part of the line.
Offsets are those of the line after substitution; they are integers, so that events can also be
made up for a place outside of any line.  A handler gathers something of its own from the
events and may refuse an event, which ends the run.
-/
import CommandLine.Command.Format
import CommandLine.Run

namespace CommandLine

/-- A part of a command line. -/
inductive Event where
  /-- A command line starts; it is written in this format. -/
  | format (format : Format)
  /-- The `/` that starts an absolute address. -/
  | rootNode (index : Int)
  /-- A step to the parent node. -/
  | parentNode (index : Int)
  /-- A node type, which an `=` follows. -/
  | nodeType (index : Int) (type : Text)
  /-- The `=` between a node type and a node name. -/
  | nodeTypeNameSeparator (index : Int)
  /-- A node name after its type. -/
  | nodeName (index : Int) (name : Text)
  /-- A node that no `=` follows; what came before decides whether it is a type or a name. -/
  | nodeTypeOrName (index : Int) (text : Text)
  /-- The `/` between two nodes. -/
  | nodeSeparator (index : Int)
  /-- The `:` that ends the address. -/
  | operationSeparator (index : Int)
  /-- The name of the operation or of the command. -/
  | operationName (index : Int) (name : Text)
  /-- The name of an argument that has no value yet. -/
  | argumentName (index : Int) (name : Text)
  /-- An `=` that no value follows. -/
  | nameValueSeparator (index : Int)
  /-- An argument with a value, and without a name if it is positional. -/
  | argument (name : Option Text) (value : Text) (start stop : Int)
  /-- What ends an argument: a gap, or a `,` in a property list. -/
  | argumentSeparator (index : Int)
  /-- The `(` that opens the property list. -/
  | propertyListStart (index : Int)
  /-- The `)` that closes the property list. -/
  | propertyListEnd (index : Int)
  /-- The output target, which takes the rest of the line from its `>` on. -/
  | outputTarget (index : Int) (target : Text)
  /-- The `{` that opens the header list. -/
  | headerListStart (index : Int)
  /-- The `}` that closes the header list. -/
  | headerListEnd (index : Int)
  /-- The name of a header that has no value yet. -/
  | headerName (index : Int) (name : Text)
  /-- A header with a value. -/
  | header (name value : Text) (index : Int)
  /-- The `;` between two headers. -/
  | headerSeparator (index : Int)
  /-- The whole line has been read. -/
  | parsed (result : Result)
deriving DecidableEq

/-- Who receives the events of a command line: what has been gathered comes out in any case, and
with a fault the event is refused. -/
abbrev Handler (η : Type) := Event → η → η × Except Fault Unit

/-- The handler that keeps all events. -/
def Handler.collecting : Handler (List Event) := fun event events => (events ++ [event], .ok ())

end CommandLine
