/-
# `CommandLine.Grammar.Address` — the address of an operation

An address is a list of nodes separated by `/`, each a type and a name joined by `=`; gaps next to
these separators are skipped.  A node may hold a part in double quotes, and a backslash takes the
next character as it is; neither quotes nor backslashes belong to the node.  A `:` ends the
address and a `{` starts the header list of the operation.  Any other gap leaves the address.
-/
import CommandLine.Grammar.Shape
import CommandLine.Grammar.StateName

namespace CommandLine.Grammar

/-- The address. -/
def address : State StateName where
  name := StateName.address.label
  onEnter := .dispatch
  transitions := [upon '/' (.enter .nodeSeparator), upon ':' (.enter .operationSeparator),
    upon '{' (.enter .headerList)]
  onGap := some (.besideSeparator ['/', '=', ':', '{'] ['/', '='] .leave)
  otherwise := .enter .node
  onReturn := .leaveOnGap
  frozen := true

/-- The type or the name of a node. -/
def node : State StateName where
  name := StateName.node.label
  marksValue := true
  locksValue := true
  onEnter := .dispatch
  transitions := [upon '=' .leave, upon '/' (.chain [.leave, .enter .nodeSeparator]),
    upon ':' (.chain [.leave, .enter .operationSeparator]), upon '"' (.enter .nodeQuotes),
    upon '\\' (.escape .nodeEscape)]
  onGap := some (.besideSeparator ['=', '/', ':'] [] .leave)
  otherwise := .content
  frozen := true

/-- The `/` before a node. -/
def nodeSeparator : State StateName where
  name := StateName.nodeSeparator.label
  onEnter := .leave
  frozen := true

/-- The character after a backslash in a node. -/
def nodeEscape : State StateName := .escaping StateName.nodeEscape.label false

/-- A part of a node in double quotes. -/
def nodeQuotes : State StateName :=
  .quoting StateName.nodeQuotes.label ['"'] .nodeEscape false true none

end CommandLine.Grammar
