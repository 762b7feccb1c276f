/-
# `CommandLine.Command.Basic` — a command and what is known about its end

A command gathers the events of a line: the address, the operation, the arguments, the headers and
the output target.  It also keeps the last separator and the start of the last part, from which
completion tells what can follow on a line that is not finished.

A command may start from a base address, to which the address on the line is relative; an absolute
address replaces it.
-/
import CommandLine.Command.Event
import CommandLine.Entries

namespace CommandLine

/-- A node of an address; the name is missing until it is read. -/
structure Node where
  /-- The type. -/
  type : Text
  /-- The name. -/
  name : Option Text := none
deriving DecidableEq

/-- An argument of a command or a property of an operation. -/
structure Argument where
  /-- The name, which positional arguments lack. -/
  name : Option Text
  /-- The value, which a name without `=` lacks. -/
  value : Option Text
  /-- Where the argument starts. -/
  start : Int
  /-- Where the argument has ended. -/
  stop : Int
  /-- The position among the arguments. -/
  index : Nat
  /-- The argument is a property in the list of an operation. -/
  inPropertyList : Bool := false
deriving DecidableEq

namespace Argument

/-- An argument without a name. -/
def isPositional (a : Argument) : Bool := a.name.isNone

/-- Where the value starts: after the name and one separator, if there is a name. -/
def valueStart (a : Argument) : Int :=
  match a.name with
  | none => a.start
  | some name => a.start + name.length + 1

end Argument

/-- What a line ends on. -/
inductive Separator where
  | none
  | node
  | nodeTypeName
  | operation
  | nameValue
  | argument
  | propertyListStart
  | propertyListEnd
  | headerListStart
  | header
deriving DecidableEq

/-- A command as far as it has been read. -/
structure Command where
  /-- The address that the address of the line is relative to. -/
  base : List Node := []
  /-- The address. -/
  address : List Node := base
  /-- The format of the line, once it has been announced. -/
  format : Option Format := none
  /-- The name of the operation or of the command. -/
  operation : Option Text := none
  /-- Where that name starts. -/
  operationStart : Option Int := none
  /-- The arguments, properties included, in the order of the line. -/
  arguments : List Argument := []
  /-- The separator that the line ends on. -/
  separator : Separator := .none
  /-- Where the last separator stands. -/
  separatorIndex : Option Int := none
  /-- Where the last part starts. -/
  partIndex : Int := 0
  /-- The line has an address or an operation. -/
  isOperation : Bool := false
  /-- A property list has been opened. -/
  hasPropertyList : Bool := false
  /-- A property list is open. -/
  inPropertyList : Bool := false
  /-- The headers with a value, in the order in which their names came up first. -/
  headers : List (Text × Text) := []
  /-- The name of the last header, if it has no value. -/
  pendingHeader : Option Text := none
  /-- The output target. -/
  outputTarget : Option Text := none
  /-- The header list has been closed, which completes a request. -/
  isComplete : Bool := false
  /-- The line, once it has been read. -/
  line : Option Line := none
  /-- The start of the value read last. -/
  valueIndex : Int := 0
  /-- The first error that lenient reading has passed over. -/
  error : Option FormatError := none

namespace Command

/-- A command before anything of a line is read. -/
def relativeTo (base : List Node) : Command := { base := base }

/-- The last node of the address, if its name is missing. -/
def pendingType? (c : Command) : Option Text :=
  match c.address.getLast? with
  | some { type, name := none } => some type
  | _ => none

/-- The address ends on a type whose name is missing. -/
def endsOnType (c : Command) : Bool := c.pendingType?.isSome

/-- The command with a separator read. -/
def withSeparator (c : Command) (separator : Separator) (index : Int) : Command :=
  { c with separator := separator, separatorIndex := some index }

/-- The command with a part read, which starts at an index. -/
def withPart (c : Command) (index : Int) : Command :=
  { c with separator := .none, partIndex := index }

/-- The command on its way to an operation. -/
def towardsOperation (c : Command) : Command := { c with isOperation := true }

/-- The command with a further node. -/
def addNode (c : Command) (type : Text) : Command :=
  { c with address := c.address ++ [{ type := type }] }

/-- The command with the name of its last node. -/
def nameNode (c : Command) (name : Text) : Command :=
  { c with address := c.address.modify (c.address.length - 1) fun n =>
      { n with name := some name } }

/-- The command with a further argument. -/
def addArgument (c : Command) (name value : Option Text) (start stop : Int) : Command :=
  { c with arguments := c.arguments ++
      [{ name, value, start, stop, index := c.arguments.length
         inPropertyList := c.inPropertyList }] }

/-- A refusal: the command so far, and what is wrong with the line. -/
def refusing (c : Command) (fault : OperationFault) : Command × Except FormatError Unit :=
  (c, .error (.operation fault))

/-- An accepted event. -/
def accepting (c : Command) : Command × Except FormatError Unit := (c, .ok ())

/-- A step to the parent node. -/
def receiveParent (c : Command) (index : Int) : Command × Except FormatError Unit :=
  let c := c.towardsOperation
  if c.address.isEmpty then c.refusing (.parentOfRoot index)
  else ({ c with address := c.address.dropLast }.withPart index).accepting

/-- A node type. -/
def receiveType (c : Command) (index : Int) (type : Text) : Command × Except FormatError Unit :=
  let c := c.towardsOperation
  if type.isEmpty then c.refusing (.nodeTypeMissing index)
  else
    match c.pendingType? with
    | some pending => c.refusing (.nodeNamePending type pending index)
    | none => ((c.addNode type).withPart index).accepting

/-- A node name. -/
def receiveName (c : Command) (index : Int) (name : Text) : Command × Except FormatError Unit :=
  if name.isEmpty then c.refusing (.nodeNameMissing index)
  else if c.endsOnType then ((c.nameNode name).withPart index).accepting
  else c.refusing (.nodeTypeAbsent name index)

/-- A node that is a name if a type waits for one, and a type otherwise. -/
def receiveTypeOrName (c : Command) (index : Int) (text : Text) : Command :=
  let c := c.towardsOperation
  (if c.endsOnType then c.nameNode text else c.addNode text).withPart index

/-- The end of the address. -/
def receiveOperationSeparator (c : Command) (index : Int) : Command × Except FormatError Unit :=
  let c := c.towardsOperation
  match c.pendingType? with
  | some type => c.refusing (.operationBeforeName type index)
  | none => (c.withSeparator .operation index).accepting

/-- A separator of name and value without a value: the last argument has an empty value. -/
def receiveNameValueSeparator (c : Command) (index : Int) : Command :=
  { c with arguments := c.arguments.modify (c.arguments.length - 1) fun a =>
      { a with value := some [], stop := index + 1 } }.withSeparator .nameValue index

/-- An argument with a value. -/
def receiveArgument (c : Command) (name : Option Text) (value : Text) (start stop : Int) :
    Command :=
  let c := c.addArgument name (some value) start stop
  match c.arguments.getLast? with
  | some argument => c.withPart argument.valueStart
  | none => c

/-- The command after an event; what is wrong with the line comes with the command so far. -/
def receive (event : Event) (c : Command) : Command × Except FormatError Unit :=
  match event with
  | .format format => { c with format := some format }.accepting
  | .rootNode index =>
    ({ c.towardsOperation with address := [] }.withSeparator .node index).accepting
  | .parentNode index => c.receiveParent index
  | .nodeType index type => c.receiveType index type
  | .nodeTypeNameSeparator index => (c.withSeparator .nodeTypeName index).accepting
  | .nodeName index name => c.receiveName index name
  | .nodeTypeOrName index text => (c.receiveTypeOrName index text).accepting
  | .nodeSeparator index => (c.towardsOperation.withSeparator .node index).accepting
  | .operationSeparator index => c.receiveOperationSeparator index
  | .operationName index name =>
    ({ c with operation := some name, operationStart := some index }.withPart index).accepting
  | .argumentName index name =>
    ((c.addArgument (some name) none index (index + name.length)).withPart index).accepting
  | .nameValueSeparator index => (c.receiveNameValueSeparator index).accepting
  | .argument name value start stop => (c.receiveArgument name value start stop).accepting
  | .argumentSeparator index => (c.withSeparator .argument index).accepting
  | .propertyListStart index =>
    ({ c with hasPropertyList := true, inPropertyList := true }.withSeparator
      .propertyListStart index).accepting
  | .propertyListEnd index =>
    ({ c with inPropertyList := false }.withSeparator .propertyListEnd index).accepting
  | .outputTarget index target => ({ c with outputTarget := some target }.withPart index).accepting
  | .headerListStart index => (c.withSeparator .headerListStart index).accepting
  | .headerListEnd index => ({ c with isComplete := true }.withSeparator .none index).accepting
  | .headerName index name => ({ c with pendingHeader := some name }.withPart index).accepting
  | .header name value index =>
    ({ c with headers := Entries.insert name value c.headers, pendingHeader := none }.withPart
      index).accepting
  | .headerSeparator index => (c.withSeparator .header index).accepting
  | .parsed result =>
    { c with line := some result.line, valueIndex := result.valueIndex
             error := result.error }.accepting

/-- The handler that gathers a command. -/
def handler : Handler Command := fun event c =>
  match c.receive event with
  | (c, .ok _) => (c, .ok ())
  | (c, .error e) => (c, .error (.format e))

/-! ## Queries -/

/-- The line has an address, or a base address. -/
def hasAddress (c : Command) : Bool := !c.address.isEmpty

/-- There is a header with a value, or one whose value is missing. -/
def hasHeaders (c : Command) : Bool := !c.headers.isEmpty || c.pendingHeader.isSome

/-- A header of this name has a value. -/
def hasHeader (c : Command) (name : Text) : Bool := (c.headers.lookup name).isSome

/-- The values of the arguments without a name. -/
def positionalArguments (c : Command) : List (Option Text) :=
  (c.arguments.filter Argument.isPositional).map Argument.value

/-- The values of the arguments with a name. -/
def namedArguments (c : Command) : List (Text × Option Text) :=
  Entries.ofList (c.arguments.filterMap fun a => a.name.map (·, a.value))

/-- The first argument of a name, or the first one without a name. -/
def argument? (c : Command) (name : Option Text) : Option Argument :=
  c.arguments.find? fun a => a.name == name

end Command
end CommandLine
