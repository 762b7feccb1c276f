/-
# `CommandLine.Command.Reader` — from a run to the events of a command line

A reader listens to a run of the command grammar and turns what it hears into events.  Tokens are
gathered from the moment their state is entered until it is left; which event a token becomes is
decided when it is complete.

Events are reported one by one, and a handler may refuse any of them.  Each report carries the
reader as it was at that moment, which is the reader that remains when the event is refused.  What
is reported does not depend on the handler.
-/
import CommandLine.Command.Event
import CommandLine.Command.Tokens
import CommandLine.Grammar.StateName

namespace CommandLine

open Text

/-- What a reader remembers between two signals. -/
structure Reader where
  /-- The token that is being read. -/
  tokens : Tokens := {}
  /-- Where the address started. -/
  addressStart : Option Nat := none
  /-- A node type has been read and its name is to follow. -/
  expectsName : Bool := false
  /-- The format that commands are said to have. -/
  format : Format := {}
deriving DecidableEq

/-- A reader at work on one signal: the reader, and the events reported so far, each with the
reader that remains when it is refused. -/
structure Reader.Work where
  /-- The reader as it is now. -/
  reader : Reader
  /-- The reported events. -/
  reports : List (Event × Reader) := []

/-- A program of a reader; it ends early when the line is at fault. -/
abbrev Reading := EStateM FormatError Reader.Work

namespace Reading

/-- Reports an event. -/
def report (event : Event) : Reading Unit :=
  modify fun w => { w with reports := w.reports ++ [(event, w.reader)] }

/-- The token that is being read. -/
def tokens : Reading Tokens := return (← get).reader.tokens

/-- Changes the reader. -/
def update (change : Reader → Reader) : Reading Unit :=
  modify fun w => { w with reader := change w.reader }

/-- Changes the token that is being read. -/
def mapTokens (change : Tokens → Tokens) : Reading Unit :=
  update fun r => { r with tokens := change r.tokens }

/-- Takes the characters of the token. -/
def take : Reading Text := do
  let (text, rest) := (← tokens).take
  mapTokens fun _ => rest
  return text

/-- Ends the run because the operation is malformed. -/
def fail {α : Type} (fault : OperationFault) : Reading α := throw (.operation fault)

/-! ## Tokens -/

section

variable (c : Context StateName)

/-- Reports an event if the given character stands under the cursor. -/
def reportOn (character : Char) (event : Event) : Reading Unit := do
  if c.character? = some character then report event

/-- Reports the gap that ends an argument. -/
def argumentGap : Reading Unit := do
  if c.character?.any isGap then report (.argumentSeparator c.location)

/-- Whether the current value is an argument of its own. -/
def isPositional : Bool :=
  match c.stack.frames with
  | _ :: outer :: _ => outer.state != .nameValueSeparator
  | _ => true

/-- Takes the value of a property or of a header.  Blanks at its end belong to it if the line has
left it open. -/
def takeValue : Reading Text := do
  let text ← take
  return if c.atEnd && c.error.any FormatError.isNotFinished then trimStart text else trim text

/-- Reports a name with a separator after it and no value. -/
def nameWithoutValue (start : Int) (name : Text) (separator : Option Int) : Reading Unit := do
  report (.argumentName start name)
  report (.nameValueSeparator (separator.getD start))

/-- A node is complete: it is a type if `=` follows, a name if a type came before, and otherwise
what the handler makes of it.  The node `.` is the current one and `..` is its parent. -/
def nodeDone : Reading Unit := do
  let text ← take
  let start := (← tokens).start
  if c.character? = some '=' then
    report (.nodeType start text)
    report (.nodeTypeNameSeparator c.location)
    update fun r => { r with expectsName := true }
  else if (← get).reader.expectsName then
    update fun r => { r with expectsName := false }
    if !text.isEmpty || !c.atEnd then report (.nodeName start text)
  else if text = ['.', '.'] then report (.parentNode start)
  else if !text.isEmpty && text != ['.'] then report (.nodeTypeOrName start text)

/-- The name of an operation or of a command is complete. -/
def operationNameDone : Reading Unit := do
  let name ← take
  if !name.isEmpty then report (.operationName (← tokens).start name)

/-- An argument with a name is complete. -/
def argumentDone : Reading Unit := do
  let t ← tokens
  match t.name, t.valueStart with
  | none, _ => report (.argumentName t.start (← take))
  | some name, some _ => report (.argument (some name) (← take) t.start c.location)
  | some name, none => nameWithoutValue t.start name t.separator
  argumentGap c
  mapTokens Tokens.clear

/-- The value of an argument is complete; one with a name is reported together with it. -/
def argumentValueDone : Reading Unit := do
  if isPositional c then
    let text ← take
    report (.argument none text (← tokens).start c.location)
    argumentGap c
    mapTokens Tokens.clear

/-- Reports a property without a value: it is set, or unset if it is negated. -/
def reportFlag (start : Int) (name : Text) (value : Text) : Reading Unit := do
  if !name.isEmpty then report (.argument (some name) value start c.location)

/-- The value of a property that is set. -/
def setValue : Text := ['t', 'r', 'u', 'e']

/-- The value of a property that is not set. -/
def unsetValue : Text := ['f', 'a', 'l', 's', 'e']

/-- A property is complete. -/
def propertyDone : Reading Unit := do
  let t ← tokens
  match t.name with
  | none =>
    match trim (← take) with
    | '!' :: rest =>
      let name := trimStart rest
      if name.head? = some '!' then fail (.doubleNegation t.start)
      reportFlag c t.start name unsetValue
    | name => reportFlag c t.start name setValue
  | some [] => fail (.propertyNameMissing t.start)
  | some name =>
    let value ← takeValue c
    if value.isEmpty then nameWithoutValue t.start name t.separator
    else report (.argument (some name) value t.start c.location)
  reportOn c ',' (.argumentSeparator c.location)
  mapTokens Tokens.clear

/-- A header is complete. -/
def headerDone : Reading Unit := do
  let t ← tokens
  let (name, value) ←
    match t.name with
    | none => pure (trim (← take), [])
    | some name => pure (name, ← takeValue c)
  if name.isEmpty then fail (.headerNameMissing t.start)
  if value.isEmpty then report (.headerName t.start name) else report (.header name value t.start)
  reportOn c ';' (.headerSeparator c.location)
  mapTokens Tokens.clear

/-- The output target is complete. -/
def outputTargetDone : Reading Unit := do
  let text ← take
  report (.outputTarget (← tokens).start (trim text))
  mapTokens Tokens.clear

/-! ## Signals -/

/-- A state has been entered. -/
def entered (state : StateName) : Reading Unit := do
  let location := c.location
  match state with
  | .command => report (.format (← get).reader.format)
  | .address => update fun r => { r with addressStart := some location }
  | .nodeSeparator =>
    update fun r => { r with expectsName := false }
    if (← get).reader.addressStart = some location then report (.rootNode location)
    else report (.nodeSeparator location)
  | .operationSeparator =>
    update fun r => { r with expectsName := false }
    report (.operationSeparator location)
  | .node | .commandName | .operationName | .argument | .property | .header | .outputTarget =>
    mapTokens fun _ => Tokens.startAt location
  | .argumentList => if 1 < c.stack.depth then report (.argumentSeparator location)
  | .nameValueSeparator | .propertyValue | .headerValue =>
    let name ← take
    mapTokens fun t => { t with name := some (trim name), separator := some location }
  | .argumentValue =>
    if isPositional c then mapTokens fun _ => Tokens.startAt location
    mapTokens fun t => { t with valueStart := some location }
  | .propertyList => report (.propertyListStart location)
  | .headerList => report (.headerListStart location)
  | _ => pure ()

/-- A state is about to be left. -/
def leaving (state : StateName) : Reading Unit := do
  match state with
  | .node => nodeDone c
  | .commandName | .operationName => operationNameDone
  | .argument => argumentDone c
  | .argumentValue => argumentValueDone c
  | .property => propertyDone c
  | .header => headerDone c
  | .propertyList => if !c.atEnd then report (.propertyListEnd c.location)
  | .headerList => if !c.atEnd then report (.headerListEnd c.location)
  | .outputTarget => outputTargetDone
  | _ => pure ()

/-- The reaction to a signal. -/
def signal : Signal StateName → Reading Unit
  | .entered state => entered c state
  | .leaving state => leaving c state
  | .content => mapTokens (·.append c.character)
  | .itemEnd | .nameEnd => pure ()

end
end Reading

namespace Reader

/-- The reader after a signal, the events it reports and the fault it finds in the line. -/
def hear (signal : Signal StateName) (c : Context StateName) (r : Reader) :
    Work × Option FormatError :=
  match Reading.signal c signal { reader := r } with
  | .ok _ work => (work, none)
  | .error e work => (work, some e)

/-- Hands reported events to a handler, up to the first one that it refuses. -/
def deliver {η : Type} (handler : Handler η) :
    List (Event × Reader) → η → η × Option (Fault × Reader)
  | [], gathered => (gathered, none)
  | (event, kept) :: rest, gathered =>
    match handler event gathered with
    | (gathered, .error fault) => (gathered, some (fault, kept))
    | (gathered, .ok _) => deliver handler rest gathered

/-- The listener that reports the events of a command line to a handler. -/
def listener {η : Type} (handler : Handler η) : Listener StateName (Reader × η) where
  hear signal c gathered :=
    let (work, error) := gathered.1.hear signal c
    match deliver handler work.reports gathered.2 with
    | (rest, some (fault, kept)) => { gathered := (kept, rest), verdict := .refuse fault }
    | (rest, none) =>
      match error with
      | some e => { gathered := (work.reader, rest), verdict := .refuse (.format e) }
      | none => { gathered := (work.reader, rest) }

/-- The collecting handler refuses nothing and keeps every report. -/
theorem deliver_collecting (reports : List (Event × Reader)) (events : List Event) :
    deliver Handler.collecting reports events = (events ++ reports.map (·.1), none) := by
  induction reports generalizing events with
  | nil => simp [deliver]
  | cons report rest ih =>
    obtain ⟨event, kept⟩ := report
    simp [deliver, Handler.collecting] at ih ⊢
    simp [ih]

end Reader
end CommandLine
