/-
# `CommandLine.Grammar.Headers` — the header list of an operation

A header list stands in braces: `{name=value; rollout plan}`.  The value of a header follows
either an `=` or the first gap after the name.  A header is left on the `;` or `}` that ends it;
the `}` leaves the list as well.
-/
import CommandLine.Grammar.ValueText

namespace CommandLine.Grammar

/-- The characters that end a header. -/
def headerEnds : List (Text × Action StateName) := [upon ';' .leave, upon '}' .leave]

/-- A line that holds header lists only. -/
def headers : State StateName where
  name := StateName.headers.label
  ignoresGaps := true
  otherwise := .enter .headerList
  frozen := true

/-- The list of headers; the `{` that opened it is met again by its first action. -/
def headerList : State StateName where
  name := StateName.headerList.label
  ignoresGaps := true
  onEnter := .dispatch
  transitions := [upon '{' .skip, upon ';' .skip, upon '}' .leave]
  otherwise := .enter .header
  onReturn := .leaveOn ['}']
  onEnd := .notFinished ['}']
  frozen := true

/-- A header. -/
def header : State StateName where
  name := StateName.header.label
  marksValue := true
  locksValue := true
  onEnter := .dispatch
  transitions := upon '=' (.enter .headerValue) :: headerEnds
  onGap := some (.besideSeparator ['=', ';', '}'] [] (.enter .headerValue))
  otherwise := .content
  onReturn := .leaveOn [';', '}']
  frozen := true

/-- The value of a header. -/
def headerValue : State StateName where
  name := StateName.headerValue.label
  transitions := valueOpeners ++ headerEnds
  otherwise := .content
  frozen := true

end CommandLine.Grammar
