/-
# `CommandLine.Grammar` — the state graph of all grammars

    [address][:operation[(name=value,...)][{header=value;...}]] [-name[=value] | value]... [> file]

One graph holds the command grammar, the grammar of a value that is being typed and that of
structured values; which of them reads a line is decided by the initial state.
-/
import CommandLine.Grammar.Address
import CommandLine.Grammar.Arguments
import CommandLine.Grammar.Command
import CommandLine.Grammar.Headers
import CommandLine.Grammar.Properties
import CommandLine.Grammar.Structured
import CommandLine.Grammar.Typed

namespace CommandLine

/-- The states of all grammars. -/
def grammar : Graph StateName
  | .command => Grammar.command
  | .commandName => Grammar.commandName
  | .address => Grammar.address
  | .node => Grammar.node
  | .nodeSeparator => Grammar.nodeSeparator
  | .nodeQuotes => Grammar.nodeQuotes
  | .nodeEscape => Grammar.nodeEscape
  | .operationSeparator => Grammar.operationSeparator
  | .operationName => Grammar.operationName
  | .propertyList => Grammar.propertyList
  | .property => Grammar.property
  | .propertyValue => Grammar.propertyValue
  | .headers => Grammar.headers
  | .headerList => Grammar.headerList
  | .header => Grammar.header
  | .headerValue => Grammar.headerValue
  | .argumentList => Grammar.argumentList
  | .argument => Grammar.argument
  | .nameValueSeparator => Grammar.nameValueSeparator
  | .argumentValue => Grammar.argumentValue
  | .outputTarget => Grammar.outputTarget
  | .brackets => Grammar.brackets
  | .parentheses => Grammar.parentheses
  | .braces => Grammar.braces
  | .quotes => Grammar.quotes
  | .backQuotes => Grammar.backQuotes
  | .escape => Grammar.escape
  | .typedStart => Grammar.typedStart
  | .typedValue => Grammar.typedValue
  | .typedQuotes => Grammar.typedQuotes
  | .typedBackQuotes => Grammar.typedBackQuotes
  | .value => Grammar.value
  | .list => Grammar.list
  | .object => Grammar.object
  | .bytes => Grammar.bytes
  | .valueQuotes => Grammar.valueQuotes
  | .valueEscape => Grammar.valueEscape

namespace Grammar

/-- Every state is reported under its own label. -/
theorem name_grammar (s : StateName) : (grammar s).name = s.label := by
  cases s <;> rfl

/-- The grammars never change. -/
theorem frozen_grammar (s : StateName) : (grammar s).frozen = true := by
  cases s <;> rfl

end Grammar
end CommandLine
