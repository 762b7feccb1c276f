/-
# `CommandLine.Run` — reading a whole line with a state graph

A run enters an initial state, performs the action of the current state for one character after
the other and, at the end of the line, lets every state that is still active react before it is
left, the innermost first.  Where expressions are enabled the text under the cursor is replaced
before it is read.

`Graph.read` answers with what the listener has gathered, whether or not the run succeeds.  A line
that holds only blanks is not read at all.

Replacements can hold further variables, so a run need not end: `positionLimit` bounds the
characters that it reads.  The bound is out of reach when no value holds a `$`: each `$` of the
line is replaced at most once, by at most the longest value.  What is read beyond that is up to the
settings, whose `allowance` can be as large as a run may need; what a line comes to otherwise does
not depend on it (`readLine_allowing`).
-/
import CommandLine.Machine

namespace CommandLine

open Text

/-- The outcome of reading a line. -/
structure Result where
  /-- The line and the substitutions made in it. -/
  line : Line
  /-- The start of the value read last. -/
  valueIndex : Int := 0
  /-- The first error that lenient reading has passed over. -/
  error : Option FormatError := none
deriving DecidableEq

/-- The length of the longest text that a name can stand for. -/
def Resolver.longestValue (r : Resolver) : Nat :=
  let entries := r.properties ++ r.variableValues.getD [] ++ r.environment
  (entries.map fun entry => entry.2.length).foldl max 0

/-- How many characters a run may read. -/
def positionLimit (settings : Settings) (text : Text) : Nat :=
  text.length * (settings.resolver.longestValue + 1) + settings.allowance

/-- How many states a run may leave at the end of the line, given how many are active. -/
def unwindLimit (settings : Settings) (depth : Nat) : Nat :=
  depth + settings.maxDepth.toNat + 1000

namespace Machine

variable {σ τ : Type} (G : Graph σ) (L : Listener σ τ)

/-- Reads one character, after replacing what stands under the cursor. -/
def step : Machine σ τ Unit := do
  if (← context).expressionsEnabled then resolve
  if (← context).atEnd then pure ()
  else do
    dispatch G L
    advance

/-- Reads the rest of the line, at most `limit` characters. -/
def walk : Nat → Machine σ τ Unit
  | 0 => do if (← context).atEnd then pure () else throw .endless
  | limit + 1 => do
    if (← context).atEnd then pure ()
    else do
      step G L
      walk limit

/-- Ends and leaves all states but the outermost one, in at most `limit` rounds. -/
def unwind : Nat → Machine σ τ Unit
  | 0 => do if 1 < (← context).stack.depth then throw .endless
  | limit + 1 => do
    if 1 < (← context).stack.depth then do
      endState G L
      if 1 < (← context).stack.depth then discard (leave G L)
      unwind limit

/-- Ends and leaves all states. -/
def finish : Machine σ τ Unit := do
  let c ← context
  unwind G L (unwindLimit c.settings c.stack.depth)
  if 0 < (← context).stack.depth then endState G L
  if 0 < (← context).stack.depth then discard (leave G L)

/-- Reads the line from an initial state on, at most `limit` characters. -/
def readFrom (initial : σ) (limit : Nat) : Machine σ τ Unit := do
  enter G L initial
  walk G L limit
  finish G L

end Machine

section

variable {σ τ : Type}

/-- What a run has found out about its line. -/
def Context.result (c : Context σ) : Result :=
  { line := c.line, valueIndex := c.valueIndex, error := c.error }

/-- The session before anything of a line is read. -/
def Session.start (settings : Settings) (strict : Bool) (text : Text) (gathered : τ) :
    Session σ τ :=
  { context := .start settings strict text, gathered := gathered }

namespace Graph

/-- Reads a line that holds more than blanks. -/
def readText (G : Graph σ) (settings : Settings) (strict : Bool) (L : Listener σ τ) (initial : σ)
    (text : Text) (gathered : τ) : τ × Except Fault Result :=
  match Machine.readFrom G L initial (positionLimit settings text)
      (Session.start settings strict text gathered) with
  | .ok _ s => (s.gathered, .ok s.context.result)
  | .error fault s => (s.gathered, .error (fault.forLine text))

/-- Reads a line with a state graph, starting in an initial state; without a line there is nothing
to read. -/
def read (G : Graph σ) (settings : Settings) (strict : Bool) (L : Listener σ τ) (initial : σ)
    (line : Option Text) (gathered : τ) : τ × Except Fault Result :=
  let text := line.getD []
  if isBlankText text then (gathered, .ok { line := Line.ofText text })
  else G.readText settings strict L initial text gathered

/-- A line of blanks is not read. -/
theorem read_of_isBlankText {settings : Settings} {strict : Bool} {G : Graph σ}
    {L : Listener σ τ} {initial : σ} {text : Text} {gathered : τ}
    (h : isBlankText text = true) :
    G.read settings strict L initial (some text) gathered =
      (gathered, .ok { line := Line.ofText text }) := by
  simp [read, h]

theorem read_of_not_isBlankText {settings : Settings} {strict : Bool} {G : Graph σ}
    {L : Listener σ τ} {initial : σ} {text : Text} {gathered : τ}
    (h : isBlankText text = false) :
    G.read settings strict L initial (some text) gathered =
      G.readText settings strict L initial text gathered := by
  simp [read, h]

end Graph
end
end CommandLine
