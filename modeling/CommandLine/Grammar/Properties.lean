/-
# `CommandLine.Grammar.Properties` — the property list of an operation

A property list stands in parentheses: `(name=value, flag, !flag)`.  A property is left on the
`,` or `)` that ends it; the `)` leaves the list as well.
-/
import CommandLine.Grammar.ValueText

namespace CommandLine.Grammar

/-- The characters that end a property. -/
def propertyEnds : List (Text × Action StateName) := [upon ',' .leave, upon ')' .leave]

/-- The list of properties, entered on its `(`. -/
def propertyList : State StateName where
  name := StateName.propertyList.label
  ignoresGaps := true
  transitions := [upon ',' .skip, upon ')' .leave]
  otherwise := .enter .property
  onReturn := .leaveOn [')']
  onEnd := .notFinished [')']
  frozen := true

/-- A property. -/
def property : State StateName where
  name := StateName.property.label
  marksValue := true
  locksValue := true
  onEnter := .dispatch
  transitions := upon '=' (.enter .propertyValue) :: propertyEnds ++ [upon '\\' (.escape .escape)]
  otherwise := .content
  onReturn := .leaveOn [',', ')']
  frozen := true

/-- The value of a property. -/
def propertyValue : State StateName where
  name := StateName.propertyValue.label
  transitions := valueOpeners ++ propertyEnds
  otherwise := .content
  frozen := true

end CommandLine.Grammar
