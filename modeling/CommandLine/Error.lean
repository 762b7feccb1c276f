/-
# `CommandLine.Error` — why reading a line ends early

Three kinds of failure are kept apart.  A `FormatError` is about the line: something in it is
missing, misplaced or cannot be resolved, and its offset says where.  A `Breach` is a promise of
the machine that a state graph has broken.  A `Defect` is any other failure, of a state graph, of
whoever listens to a run or of the machine that it runs on; it reaches the caller inside a
`FormatError.notParsed`, which names the line.  Each constructor is a cause; the wording is in the functions `message`.
-/
import CommandLine.Text.Quoted

namespace CommandLine

/-- What is wrong with the address or the operation of a command. -/
inductive OperationFault where
  /-- A step to the parent stands where the address is empty. -/
  | parentOfRoot (index : Int)
  /-- A separator of type and name stands without a type before it. -/
  | nodeTypeMissing (index : Int)
  /-- A further node type stands where the name for an earlier one is still missing. -/
  | nodeNamePending (type pending : Text) (index : Int)
  /-- A separator of type and name stands without a name after it. -/
  | nodeNameMissing (index : Int)
  /-- A node name stands where no type waits for one. -/
  | nodeTypeAbsent (name : Text) (index : Int)
  /-- The operation starts where the name for a node type is still missing. -/
  | operationBeforeName (type : Text) (index : Int)
  /-- A property is negated twice. -/
  | doubleNegation (start : Int)
  /-- A property value stands without a name before it. -/
  | propertyNameMissing (start : Int)
  /-- A header has no name. -/
  | headerNameMissing (start : Int)
  /-- A fault that a listener reports in its own words. -/
  | other (words : String) (index : Int)
deriving DecidableEq

namespace OperationFault

/-- Where the fault was met. -/
def index : OperationFault → Int
  | parentOfRoot i | nodeTypeMissing i | nodeNamePending _ _ i | nodeNameMissing i
  | nodeTypeAbsent _ i | operationBeforeName _ i | doubleNegation i | propertyNameMissing i
  | headerNameMissing i | other _ i => i

/-- The fault in words. -/
def message : OperationFault → String
  | parentOfRoot i => s!"Can't go to the parent of the root node at index {i}"
  | nodeTypeMissing i => s!"Node type is missing at index {i}"
  | nodeNamePending type pending _ =>
    s!"Can't proceed with node type '{String.ofList type}' until the node name " ++
      s!"for '{String.ofList pending}' is specified"
  | nodeNameMissing i => s!"Node name is missing at index {i}"
  | nodeTypeAbsent name i => s!"Node name '{String.ofList name}' at index {i} has no node type"
  | operationBeforeName type i =>
    s!"The node name for '{String.ofList type}' must be specified before the operation " ++
      s!"at index {i}"
  | doubleNegation i => s!"Property name at index {i} can't start with '!!'"
  | propertyNameMissing i => s!"Property name is missing at index {i}"
  | headerNameMissing i => s!"Header name is missing at index {i}"
  | other words _ => words

end OperationFault

/-- A promise of the machine that a state graph has broken. -/
inductive Breach where
  /-- An action needs a current state and there is none. -/
  | noActiveState
  /-- A state is left and there is none. -/
  | leaveWithoutState
  /-- The cursor is moved beyond the end of the line. -/
  | pastEnd (location length : Nat)
  /-- A promise that a listener found broken, in its own words. -/
  | other (words : String)
deriving DecidableEq

/-- The breach in words. -/
def Breach.message : Breach → String
  | noActiveState => "No active state"
  | leaveWithoutState => "Leaving a state with an empty stack"
  | pastEnd location length => s!"Location {location} is past the end of {length} characters"
  | other words => words

/-- A failure that is not about the line. -/
inductive Defect where
  /-- A state is changed after it was frozen. -/
  | frozenState (name : String)
  /-- A frame is taken from an empty stack. -/
  | emptyStack
  /-- The action to perform has no meaning. -/
  | undefinedAction
  /-- A value action meets a listener that reads no values. -/
  | noValueReader
  /-- A part of a value is met while no value is being read. -/
  | noOpenValue
  /-- A character is read before the first one of a text. -/
  | noCharacter
  /-- A field of a record that never changes is assigned. -/
  | fixedField (field : String)
  /-- Any other failure, with its kind and words. -/
  | other (kind words : String)
deriving DecidableEq

/-- Calls are nested deeper than the stack of calls allows. -/
def Defect.nestedTooDeep : Defect := .other "RecursionError" "maximum recursion depth exceeded"

/-- The defect in words. -/
def Defect.message : Defect → String
  | frozenState name => s!"State {name} is frozen and can't be modified"
  | emptyStack => "pop from empty list"
  | undefinedAction => ""
  | noValueReader => "the listener reads no values"
  | noOpenValue => "list index out of range"
  | noCharacter => "string index out of range"
  | fixedField field => "cannot assign to field " ++ String.ofList (Text.quoted field.toList)
  | other _ words => words

/-- What is wrong with a line. -/
inductive FormatError where
  /-- The line ends while a value that started at `start` waits for its closing delimiter. -/
  | valueNotFinished (delimiter : Text) (start : Int)
  /-- An expression has no closing brace; `rest` is the text from its start on, and `shown` the part
  of it that is shown. -/
  | expressionNotClosed (rest shown : Text) (start : Int)
  /-- No name of an expression is defined and it has no default. -/
  | unresolvedExpression (expression : Text) (start : Int)
  /-- A variable is not defined. -/
  | unresolvedVariable (name : Text) (start : Int)
  /-- More states would be active at once than allowed. -/
  | nestingTooDeep (limit : Int) (location : Int)
  /-- The address or the operation is malformed. -/
  | operation (fault : OperationFault)
  /-- A character stands after a quoted or structured value. -/
  | textAfterValue (character : Text) (location : Int)
  /-- An object holds an item without a name; `shown` is the item's value in words. -/
  | nameMissing (shown : Text)
  /-- A text that should be a byte is no numeral. -/
  | invalidByte (token : Text) (offset : Int)
  /-- A numeral does not fit into a byte. -/
  | byteOutOfRange (token : Text) (offset : Int)
  /-- Reading the line failed for a reason that is not in the line. -/
  | notParsed (line : Text) (cause : Defect)
  /-- An error that a listener reports in its own words. -/
  | other (words : String) (offset : Int)
deriving DecidableEq

namespace FormatError

/-- The offset of the error; it is negative when the place is not known. -/
def offset : FormatError → Int
  | valueNotFinished _ start | expressionNotClosed _ _ start | unresolvedExpression _ start
  | unresolvedVariable _ start => start
  | nestingTooDeep _ location => location
  | operation fault => fault.index
  | textAfterValue _ location => location
  | nameMissing _ | notParsed _ _ => -1
  | invalidByte _ offset | byteOutOfRange _ offset | other _ offset => offset

/-- The error in words. -/
def message : FormatError → String
  | valueNotFinished delimiter start =>
    s!"Closing {String.ofList delimiter} is missing for the value starting at index {start}"
  | expressionNotClosed _ shown _ =>
    "Closing \x7d is missing for " ++ String.ofList shown ++ "..."
  | unresolvedExpression expression _ => s!"Cannot resolve expression '{String.ofList expression}'"
  | unresolvedVariable name _ => s!"Unrecognized variable {String.ofList name}"
  | nestingTooDeep limit location => s!"Nesting depth exceeds {limit} at index {location}"
  | operation fault => fault.message
  | textAfterValue character location =>
    s!"Unexpected '{String.ofList character}' after the value at index {location}"
  | nameMissing shown => s!"Missing name for '{String.ofList shown}' in an object value"
  | invalidByte token _ => s!"Invalid byte '{String.ofList token}'"
  | byteOutOfRange token _ => s!"Byte '{String.ofList token}' is out of range"
  | notParsed line _ => s!"Failed to parse '{String.ofList line}'"
  | other words _ => words

/-- Whether the error is a value that the line leaves open. -/
def isNotFinished : FormatError → Bool
  | valueNotFinished _ _ => true
  | _ => false

end FormatError

/-- How a run ends early. -/
inductive Fault where
  /-- The line is at fault. -/
  | format (error : FormatError)
  /-- The state graph has broken a promise of the machine. -/
  | breach (breach : Breach)
  /-- The run has failed in another way. -/
  | defect (defect : Defect)
  /-- The run was given up because it went on too long. -/
  | endless
deriving DecidableEq

/-- The failure that a caller who asked for `line` to be read gets to see: a defect is reported as
a failure to read that line, all else as it is. -/
def Fault.forLine (line : Text) : Fault → Fault
  | .defect cause => .format (.notParsed line cause)
  | fault => fault

end CommandLine
