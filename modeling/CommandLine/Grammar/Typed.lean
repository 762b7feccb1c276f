/-
# `CommandLine.Grammar.Typed` — a value that is being typed

A value that is being typed may end anywhere: quotes need no closing quote.  Gaps before the value
are skipped and quotes are dropped; everything else, backslashes included, is content.
-/
import CommandLine.Grammar.Shape
import CommandLine.Grammar.StateName

namespace CommandLine.Grammar

/-- The gaps before the value. -/
def typedStart : State StateName where
  name := StateName.typedStart.label
  ignoresGaps := true
  otherwise := .enter .typedValue
  frozen := true

/-- The value. -/
def typedValue : State StateName where
  name := StateName.typedValue.label
  marksValue := true
  onEnter := .dispatch
  transitions := [upon '"' (.enter .typedQuotes), upon '\x60' (.enter .typedBackQuotes),
    upon '\\' (.escape .escape)]
  otherwise := .content
  frozen := true

/-- A part in double quotes. -/
def typedQuotes : State StateName :=
  .quoting StateName.typedQuotes.label ['"'] .escape false false none

/-- A part in back quotes. -/
def typedBackQuotes : State StateName :=
  .quoting StateName.typedBackQuotes.label ['\x60'] .escape false false none

end CommandLine.Grammar
