/-
# `CommandLine.Machine` — what the actions of a state graph do

A session is a context together with what a listener has gathered from it; a machine program
changes a session and may end early with a fault, the session staying as it was at that moment.

Actions set one another off: entering a state performs an action of that state, leaving one
performs an action of the state below, and a chain performs several.  `perform` says what one
action does, given how to perform the actions that it sets off in turn, and `act` closes the
circle for actions that are nested at most `actionLimit` deep.  A graph whose actions set each
other off for ever ends with `Fault.endless`.
-/
import CommandLine.Listener

namespace CommandLine

open Text

/-- A context and what a listener has gathered from it. -/
structure Session (σ τ : Type) where
  /-- The cursor and what is known about the line. -/
  context : Context σ
  /-- What the listener has gathered. -/
  gathered : τ

/-- A program that changes a session and may end early. -/
abbrev Machine (σ τ : Type) := EStateM Fault (Session σ τ)

namespace Machine

variable {σ τ : Type}

/-! ## The session -/

/-- The context. -/
def context : Machine σ τ (Context σ) := return (← get).context

/-- Changes the context. -/
def update (change : Context σ → Context σ) : Machine σ τ Unit :=
  modify fun s => { s with context := change s.context }

/-- An error of the line ends a strict run and is remembered by any other. -/
def complain (e : FormatError) : Machine σ τ Unit := do
  if (← context).strict then throw (.format e) else update (·.remember e)

/-- Tells the listener. -/
def tell (L : Listener σ τ) (signal : Signal σ) : Machine σ τ Unit := do
  let s ← get
  let reply := L.hear signal s.context s.gathered
  set { s with gathered := reply.gathered }
  match reply.verdict with
  | .accept => pure ()
  | .complain e => complain e
  | .refuse fault => throw fault

/-- What can stand at the current place of a value. -/
def place (L : Listener σ τ) : Machine σ τ Place := do
  match L.place (← get).gathered with
  | .ok place => return place
  | .error d => throw (.defect d)

/-- The innermost frame; there must be one. -/
def frame : Machine σ τ (Frame σ) := do
  match (← context).frame? with
  | some frame => return frame
  | none => throw (.breach .noActiveState)

/-- Puts a frame on the stack. -/
def push (frame : Frame σ) : Machine σ τ Unit := do
  match (← context).stack.push frame with
  | .ok stack => update ({ · with stack := stack })
  | .error e => throw (.format e)

/-- Takes the innermost frame off the stack. -/
def pop : Machine σ τ Unit := do
  match (← context).stack.pop with
  | .ok (_, stack) => update ({ · with stack := stack })
  | .error d => throw (.defect d)

/-- Moves the cursor to the next character. -/
def advance : Machine σ τ Unit := do
  let c ← context
  if c.atEnd then throw (.breach (.pastEnd c.location c.input.length))
  else update ({ · with location := c.location + 1 })

/-- Replaces the expression or the variable under the cursor. -/
def resolve : Machine σ τ Unit := do
  let (c, failed) := (← context).resolve
  update fun _ => c
  match failed with
  | some fault => throw fault
  | none => pure ()

/-- Switches escapes and expressions for the scope of the current state. -/
def configure (escapes expressions : Option Bool) : Machine σ τ Unit := do
  let _ ← frame
  update (·.configure escapes expressions)

/-- Complains that the value of the current state lacks its closing delimiter. -/
def notFinished (delimiter : Text) : Machine σ τ Unit := do
  complain (.valueNotFinished delimiter (← frame).location)

/-! ## Actions -/

section

variable (G : Graph σ) (L : Listener σ τ) (run : Action σ → Machine σ τ Unit)

/-- Enters a state; `run` performs its first action. -/
def enterBy (name : σ) : Machine σ τ Unit := do
  push ((← context).frameFor name (G name))
  update (·.markValue (G name))
  tell L (.entered name)
  run (G name).onEnter

/-- Leaves the current state; `run` performs the last action of that state and then the action of
the state below.  The answer is the state that was current at the beginning. -/
def leaveBy : Machine σ τ σ := do
  match (← context).frame? with
  | none => throw (.breach .leaveWithoutState)
  | some first => do
    run (G first.state).onLeave
    tell L (.leaving (← frame).state)
    pop
    update (·.unlockValue)
    match (← context).frame? with
    | some below => run (G below.state).onReturn
    | none => pure ()
    return first.state

/-- Performs the action of the current state for the character under the cursor. -/
def dispatchBy : Machine σ τ Unit := do
  let f ← frame
  run ((G f.state).actionFor (← context).character)

/-- Performs one action; `run` performs the actions that it sets off. -/
def perform : Action σ → Machine σ τ Unit
  | .skip => pure ()
  | .content => tell L .content
  | .leave => discard (leaveBy G L run)
  | .contentAndLeave => do
    tell L .content
    discard (leaveBy G L run)
  | .dispatch => dispatchBy G run
  | .undefined => throw (.defect .undefinedAction)
  | .enter state => enterBy G L run state
  | .escape state => do
    if (← context).escapesEnabled then enterBy G L run state else tell L .content
  | .chain actions => actions.forM run
  | .notFinished delimiter => notFinished delimiter
  | .configure escapes expressions => configure escapes expressions
  | .besideSeparator following preceding otherwise => do
    if (← context).isBesideSeparator following preceding then pure () else run otherwise
  | .leaveOnGap => do
    if (← context).character?.any isGap then discard (leaveBy G L run)
  | .leaveOn characters => do
    if (← context).character?.any characters.contains then discard (leaveBy G L run)
  | .enterUnlessEnd state => do
    if (← context).atEnd then pure () else enterBy G L run state
  | .startValue state => do
    if (← place L).startsValue then enterBy G L run state else tell L .content
  | .startBraces object bytes => do
    let p ← place L
    if p.startsValue then enterBy G L run object
    else if p.opensBytes then enterBy G L run bytes
    else tell L .content
  | .endItem => do
    let _ ← place L
    tell L .itemEnd
  | .endName => do
    let p ← place L
    tell L .nameEnd
    if p.endsName then pure () else tell L .content

end

section

variable (G : Graph σ) (L : Listener σ τ)

/-- Performs an action that sets off others at most `limit` deep. -/
def actUpTo : Nat → Action σ → Machine σ τ Unit
  | 0 => fun _ => throw .endless
  | limit + 1 => perform G L (actUpTo limit)

/-- How deep actions may set each other off.  The limit leaves room for chains of states that
enter each other until the stack of the usual depth is full. -/
def actionLimit : Nat := 1000

/-- Performs an action and all that it sets off. -/
def act (action : Action σ) : Machine σ τ Unit := actUpTo G L actionLimit action

/-- Enters a state. -/
def enter (name : σ) : Machine σ τ Unit := enterBy G L (act G L) name

/-- Leaves the current state. -/
def leave : Machine σ τ σ := leaveBy G L (act G L)

/-- Handles the character under the cursor as the current state says. -/
def dispatch : Machine σ τ Unit := dispatchBy G (act G L)

/-- Tells the current state that the line has ended. -/
def endState : Machine σ τ Unit := do
  act G L (G (← frame).state).onEnd

theorem actUpTo_succ (limit : Nat) (action : Action σ) :
    actUpTo G L (limit + 1) action = perform G L (actUpTo G L limit) action := rfl

end

end Machine
end CommandLine
