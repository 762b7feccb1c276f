/-
# `CommandLine.Grammar.Arguments` — the arguments of a command

Arguments are separated by gaps.  One that starts with `-` is a name, with a value if `=` follows;
a gap directly after the `=` ends the argument without a value.  Any other text is a value of its
own.  A `>` starts the output target, which takes the rest of the line.
-/
import CommandLine.Grammar.ValueText

namespace CommandLine.Grammar

/-- The list of arguments. -/
def argumentList : State StateName where
  name := StateName.argumentList.label
  ignoresGaps := true
  transitions := [upon '-' (.enter .argument), upon '>' (.enter .outputTarget)]
  otherwise := .enter .argumentValue
  frozen := true

/-- An argument with a name. -/
def argument : State StateName where
  name := StateName.argument.label
  leavesOnGap := true
  marksValue := true
  locksValue := true
  onEnter := .content
  transitions := [upon '=' (.enter .nameValueSeparator)]
  otherwise := .content
  onReturn := .leave
  frozen := true

/-- The `=` between the name and the value of an argument. -/
def nameValueSeparator : State StateName where
  name := StateName.nameValueSeparator.label
  leavesOnGap := true
  otherwise := .enter .argumentValue
  onReturn := .leave
  frozen := true

/-- The value of an argument, with or without a name. -/
def argumentValue : State StateName where
  name := StateName.argumentValue.label
  leavesOnGap := true
  marksValue := true
  locksValue := true
  onEnter := .dispatch
  transitions := valueOpeners
  otherwise := .content
  frozen := true

/-- The output target. -/
def outputTarget : State StateName where
  name := StateName.outputTarget.label
  otherwise := .content
  frozen := true

end CommandLine.Grammar
