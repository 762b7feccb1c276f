/-
# `CommandLine.Grammar.StateName` — the states of the grammars

The names of all states, those of the command grammar, of the value that is being typed and of
structured values, with the labels under which they are reported.
-/

namespace CommandLine

/-- The name of a state. -/
inductive StateName where
  -- a whole command
  | command | commandName
  -- the address
  | address | node | nodeSeparator | nodeQuotes | nodeEscape
  -- the operation
  | operationSeparator | operationName
  -- the property list of an operation
  | propertyList | property | propertyValue
  -- the header list of an operation
  | headers | headerList | header | headerValue
  -- the arguments of a command
  | argumentList | argument | nameValueSeparator | argumentValue | outputTarget
  -- the text of a value
  | brackets | parentheses | braces | quotes | backQuotes | escape
  -- a value that is being typed
  | typedStart | typedValue | typedQuotes | typedBackQuotes
  -- a structured value
  | value | list | object | bytes | valueQuotes | valueEscape
deriving DecidableEq

namespace StateName

/-- The label under which a state is reported. -/
def label : StateName → String
  | command => "COMMAND"
  | commandName => "COMMAND_NAME"
  | address => "ADDRESS"
  | node => "NODE"
  | nodeSeparator => "NODE_SEPARATOR"
  | nodeQuotes => "NODE_QUOTES"
  | nodeEscape => "NODE_ESCAPE"
  | operationSeparator => "ADDRESS_OPERATION_SEPARATOR"
  | operationName => "OPERATION_NAME"
  | propertyList => "PROPERTY_LIST"
  | property => "PROPERTY"
  | propertyValue => "PROPERTY_VALUE"
  | headers => "HEADERS"
  | headerList => "HEADER_LIST"
  | header => "HEADER"
  | headerValue => "HEADER_VALUE"
  | argumentList => "ARGUMENT_LIST"
  | argument => "ARGUMENT"
  | nameValueSeparator => "NAME_VALUE_SEPARATOR"
  | argumentValue => "ARGUMENT_VALUE"
  | outputTarget => "OUTPUT_TARGET"
  | brackets => "BRACKETS"
  | parentheses => "PARENTHESIS"
  | braces => "BRACES"
  | quotes => "QUOTES"
  | backQuotes => "BACK_QUOTES"
  | escape => "ESCAPE"
  | typedStart => "PARTIAL_VALUE_INITIAL"
  | typedValue => "PARTIAL_VALUE"
  | typedQuotes => "PARTIAL_QUOTES"
  | typedBackQuotes => "PARTIAL_BACK_QUOTES"
  | value => "VALUE"
  | list => "LIST"
  | object => "OBJECT"
  | bytes => "BYTES"
  | valueQuotes => "VALUE_QUOTES"
  | valueEscape => "VALUE_ESCAPE"

/-- All states. -/
def all : List StateName :=
  [command, commandName, address, node, nodeSeparator, nodeQuotes, nodeEscape,
    operationSeparator, operationName, propertyList, property, propertyValue, headers, headerList,
    header, headerValue, argumentList, argument, nameValueSeparator, argumentValue, outputTarget,
    brackets, parentheses, braces, quotes, backQuotes, escape, typedStart, typedValue,
    typedQuotes, typedBackQuotes, value, list, object, bytes, valueQuotes, valueEscape]

/-- The state with a label. -/
def ofLabel? (text : String) : Option StateName := all.find? fun s => s.label == text

theorem mem_all (s : StateName) : s ∈ all := by
  cases s <;> decide

theorem ofLabel?_label (s : StateName) : ofLabel? s.label = some s := by
  cases s <;> rfl

/-- A label belongs to one state only. -/
theorem label_injective {s t : StateName} (h : s.label = t.label) : s = t := by
  simpa [ofLabel?_label] using congrArg ofLabel? h

end StateName
end CommandLine
