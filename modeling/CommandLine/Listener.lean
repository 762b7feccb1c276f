/-
# `CommandLine.Listener` — who is told what happens in a run

The machine tells a listener when a state is entered, when one is about to be left and when a
character is taken as content.  A listener gathers something of a type of its own choice; it sees
the context but does not change it, and it can end the run by its answer.  `Listener.silent`
gathers nothing, and `Listener.recording` keeps a trace of what any listener is told.
-/
import CommandLine.Context

namespace CommandLine

/-- What a listener is told. -/
inductive Signal (σ : Type) where
  /-- A state has been entered; its own actions come later. -/
  | entered (state : σ)
  /-- A state is about to be left; its frame is still on the stack. -/
  | leaving (state : σ)
  /-- The character under the cursor is content. -/
  | content
  /-- The character under the cursor ends an item. -/
  | itemEnd
  /-- The character under the cursor may end the name of an item. -/
  | nameEnd
deriving DecidableEq

/-- What a listener thinks of what it was told. -/
inductive Verdict where
  /-- The run goes on. -/
  | accept
  /-- The line is at fault; the run ends if it is strict and goes on otherwise. -/
  | complain (error : FormatError)
  /-- The run ends. -/
  | refuse (fault : Fault)
deriving DecidableEq

/-- The answer of a listener: what it has gathered now, and its verdict. -/
structure Reply (τ : Type) where
  /-- What has been gathered so far. -/
  gathered : τ
  /-- Whether the run goes on. -/
  verdict : Verdict := .accept

/-- What can stand at the current place of a value. -/
structure Place where
  /-- A quoted or structured value can start. -/
  startsValue : Bool
  /-- The braces of a byte string can open. -/
  opensBytes : Bool
  /-- The name of an item can end. -/
  endsName : Bool
deriving DecidableEq

/-- Someone who is told what happens in a run, and gathers a `τ`. -/
structure Listener (σ τ : Type) where
  /-- The answer to a signal. -/
  hear : Signal σ → Context σ → τ → Reply τ
  /-- What can stand at the current place, for a listener that reads values. -/
  place : τ → Except Defect Place := fun _ => .error .noValueReader

/-- One line of a trace: a signal and what the context was when it was given. -/
structure Entry (σ : Type) where
  /-- What was told. -/
  signal : Signal σ
  /-- The character under the cursor. -/
  character : Text
  /-- The cursor. -/
  location : Nat
  /-- The number of active states. -/
  depth : Nat
  /-- The start of the current value. -/
  valueIndex : Nat
  /-- The value mark was locked. -/
  locked : Bool
  /-- Escapes were enabled. -/
  escapes : Bool
  /-- Expressions were resolved. -/
  expressions : Bool
deriving DecidableEq

/-- The trace line of a signal. -/
def Entry.of {σ : Type} (signal : Signal σ) (c : Context σ) : Entry σ where
  signal := signal
  character := c.character
  location := c.location
  depth := c.stack.depth
  valueIndex := c.valueIndex
  locked := c.valueLocked
  escapes := c.escapesEnabled
  expressions := c.expressionsEnabled

namespace Listener

variable {σ τ : Type}

/-- The listener that gathers nothing. -/
def silent : Listener σ Unit where
  hear _ _ _ := { gathered := () }

/-- The listener that keeps a trace beside what another listener gathers. -/
def recording (inner : Listener σ τ) : Listener σ (Array (Entry σ) × τ) where
  hear signal c gathered :=
    let reply := inner.hear signal c gathered.2
    { gathered := (gathered.1.push (Entry.of signal c), reply.gathered)
      verdict := reply.verdict }
  place gathered := inner.place gathered.2

/-- Recording changes nothing for the listener inside. -/
@[simp] theorem recording_hear_gathered (inner : Listener σ τ) (signal : Signal σ)
    (c : Context σ) (gathered : Array (Entry σ) × τ) :
    ((recording inner).hear signal c gathered).gathered.2 =
      (inner.hear signal c gathered.2).gathered := rfl

@[simp] theorem recording_hear_verdict (inner : Listener σ τ) (signal : Signal σ)
    (c : Context σ) (gathered : Array (Entry σ) × τ) :
    ((recording inner).hear signal c gathered).verdict =
      (inner.hear signal c gathered.2).verdict := rfl

end Listener
end CommandLine
