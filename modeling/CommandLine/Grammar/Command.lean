/-
# `CommandLine.Grammar.Command` — a command and its operation

A command is either an address with an operation, which starts with one of `/`, `:` and `.`, or a
command name.  Both are followed by arguments.  The `:` after an address is followed by the name
of the operation; a `(` ends the name and opens the property list, a `{` ends it and opens the
header list.
-/
import CommandLine.Grammar.Shape
import CommandLine.Grammar.StateName

namespace CommandLine.Grammar

/-- A whole command. -/
def command : State StateName where
  name := StateName.command.label
  ignoresGaps := true
  transitions := [upon '/' (.enter .address), upon ':' (.enter .address),
    upon '.' (.enter .address)]
  otherwise := .enter .commandName
  onReturn := .enterUnlessEnd .argumentList
  frozen := true

/-- The name of a command. -/
def commandName : State StateName where
  name := StateName.commandName.label
  leavesOnGap := true
  marksValue := true
  locksValue := true
  onEnter := .content
  otherwise := .content
  frozen := true

/-- The `:` before the name of an operation. -/
def operationSeparator : State StateName where
  name := StateName.operationSeparator.label
  ignoresGaps := true
  otherwise := .enter .operationName
  onReturn := .leave
  frozen := true

/-- The name of an operation; the lists after it are entered once the name is left. -/
def operationName : State StateName where
  name := StateName.operationName.label
  marksValue := true
  locksValue := true
  onEnter := .content
  transitions := [upon '(' (.chain [.leave, .enter .propertyList]),
    upon '{' (.chain [.leave, .enter .headerList])]
  onGap := some (.besideSeparator ['(', '{'] [] .leave)
  otherwise := .content
  frozen := true

end CommandLine.Grammar
