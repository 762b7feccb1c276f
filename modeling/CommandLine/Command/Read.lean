/-
# `CommandLine.Command.Read` — reading a command line

A line is read as a command, as a list of arguments or as the header list of an operation.  The
events of the line go to a handler, and at the end the handler is told that the line was read;
it is not told so when the line is at fault.

`Command.read` gathers a line into a command.
-/
import CommandLine.Command.Basic
import CommandLine.Command.Reader
import CommandLine.Grammar

namespace CommandLine

/-- What a line is read as. -/
inductive Entrance where
  /-- A whole command. -/
  | command
  /-- A list of arguments without a command name. -/
  | arguments
  /-- The header list of an operation. -/
  | headers
deriving DecidableEq

/-- The state in which a line is entered. -/
def Entrance.state : Entrance → StateName
  | .command => .command
  | .arguments => .argumentList
  | .headers => .headers

section

variable {η : Type}

/-- Reads a line from a state on with a reader that may have read other lines before.  The handler
learns the outcome; the reader comes back for further lines. -/
def readWith (settings : Settings) (strict : Bool) (handler : Handler η) (initial : StateName)
    (line : Option Text) (reader : Reader) (gathered : η) :
    (Reader × η) × Except Fault Result :=
  match grammar.read settings strict (Reader.listener handler) initial line (reader, gathered) with
  | (heard, .error fault) => (heard, .error fault)
  | ((reader, gathered), .ok result) =>
    match handler (.parsed result) gathered with
    | (gathered, .error fault) => ((reader, gathered), .error fault)
    | (gathered, .ok _) => ((reader, gathered), .ok result)

/-- Reads a line and hands its events to a handler. -/
def readLine (settings : Settings) (strict : Bool) (handler : Handler η) (entrance : Entrance)
    (line : Option Text) (gathered : η) : η × Except Fault Result :=
  let ((_, gathered), outcome) :=
    readWith settings strict handler entrance.state line {} gathered
  (gathered, outcome)

end

namespace Command

/-- Reads a line into a command that starts from a base address. -/
def read (settings : Settings) (strict : Bool) (entrance : Entrance) (base : List Node)
    (line : Option Text) : Except Fault Command :=
  match readLine settings strict handler entrance line (relativeTo base) with
  | (_, .error fault) => .error fault
  | (c, .ok _) => .ok c

end Command

/-- The events of a line, and how reading it ends. -/
def Event.ofLine (settings : Settings) (strict : Bool) (entrance : Entrance) (line : Option Text) :
    List Event × Except Fault Result :=
  readLine settings strict Handler.collecting entrance line []

end CommandLine
