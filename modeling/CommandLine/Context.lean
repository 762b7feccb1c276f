/-
# `CommandLine.Context` — the cursor on a line and what is known about it

A context belongs to one reading of one line: it holds the line with the substitutions made so
far, the cursor, the stack of active states, the mark of the value that is being read and the
first error that lenient reading has passed over.

The value mark is where the current value starts.  Entering a state that marks values moves it,
unless it is locked; a state that also locks values locks it, and it stays locked until that very
state is left.
-/
import CommandLine.Line
import CommandLine.Resolver
import CommandLine.Stack
import CommandLine.State

namespace CommandLine

open Text

/-- How lines are to be read. -/
structure Settings where
  /-- What expressions and variables stand for. -/
  resolver : Resolver := {}
  /-- Whether expressions in braces are resolved at all; variables do not depend on it. -/
  resolvesExpressions : Bool := false
  /-- The number of states that can be active at once. -/
  maxDepth : Int := defaultMaxDepth
  /-- How many characters a run may read beyond those that values without a `$` can bring in. -/
  allowance : Nat := 1048576

/-- Whether anything is replaced at all. -/
def Settings.substitutes (s : Settings) : Bool :=
  s.resolvesExpressions || s.resolver.variableValues.isSome

/-- The cursor on a line and what is known about it. -/
structure Context (σ : Type) where
  /-- How the line is to be read. -/
  settings : Settings
  /-- Whether an error ends the run; otherwise the first one is remembered where possible. -/
  strict : Bool
  /-- The line, as typed and as it reads so far. -/
  line : Line
  /-- The cursor, an offset in the substituted line. -/
  location : Nat := 0
  /-- The active states. -/
  stack : Stack σ
  /-- The start of the current value. -/
  valueIndex : Nat := 0
  /-- The depth of the state that locks the value mark. -/
  lockDepth : Option Nat := none
  /-- The first error that was passed over. -/
  error : Option FormatError := none

namespace Context

variable {σ : Type}

/-- The context before anything of a line is read. -/
def start (settings : Settings) (strict : Bool) (text : Text) : Context σ :=
  { settings := settings, strict := strict, line := Line.ofText text,
    stack := { maxDepth := settings.maxDepth } }

/-- The text that is read. -/
def input (c : Context σ) : Text := c.line.substituted

/-- The cursor has passed the last character. -/
def atEnd (c : Context σ) : Bool := c.input.length ≤ c.location

/-- The character under the cursor. -/
def character? (c : Context σ) : Option Char := c.input[c.location]?

/-- The character under the cursor as a text, which is empty at the end of the line. -/
def character (c : Context σ) : Text := c.character?.toList

/-- The innermost frame. -/
def frame? (c : Context σ) : Option (Frame σ) := c.stack.top?

/-- Escapes are enabled in the current scope; without a state they are. -/
def escapesEnabled (c : Context σ) : Bool := (c.frame?.map Frame.escapes).getD true

/-- Expressions are resolved in the current scope; without a state they are. -/
def expressionsEnabled (c : Context σ) : Bool := (c.frame?.map Frame.expressions).getD true

/-- The value mark cannot be moved. -/
def valueLocked (c : Context σ) : Bool := c.lockDepth.isSome

/-- Remembers an error unless an earlier one is remembered. -/
def remember (c : Context σ) (e : FormatError) : Context σ :=
  { c with error := c.error.or (some e) }

/-- The frame of a state entered now: a setting that the state leaves open is the current one. -/
def frameFor (c : Context σ) (name : σ) (s : State σ) : Frame σ :=
  { state := name, location := c.location
    escapes := s.escapes.getD c.escapesEnabled
    expressions := s.expressions.getD c.expressionsEnabled }

/-- Moves and locks the value mark for the state whose frame has just been pushed. -/
def markValue (c : Context σ) (s : State σ) : Context σ :=
  if c.lockDepth.isNone && s.marksValue then
    { c with
      valueIndex := c.location
      lockDepth := if s.locksValue then some c.stack.depth else none }
  else c

/-- Unlocks the value mark once the state that locked it is gone. -/
def unlockValue (c : Context σ) : Context σ :=
  match c.lockDepth with
  | some depth => if c.stack.depth < depth then { c with lockDepth := none } else c
  | none => c

/-- Switches escapes and expressions for the scope of the current state. -/
def configure (c : Context σ) (escapes expressions : Option Bool) : Context σ :=
  { c with stack := c.stack.mapTop fun f =>
      { f with escapes := escapes.getD f.escapes, expressions := expressions.getD f.expressions } }

/-- The first character after the cursor that is no gap. -/
def nextSolid? (c : Context σ) : Option Char :=
  ((c.input.drop (c.location + 1)).dropWhile isGap).head?

/-- The last character before the cursor that is no gap. -/
def lastSolid? (c : Context σ) : Option Char :=
  ((c.input.take c.location).reverse.dropWhile isGap).head?

/-- Only gaps stand between the cursor and a separator. -/
def isBesideSeparator (c : Context σ) (following preceding : Text) : Bool :=
  c.nextSolid?.any following.contains || c.lastSolid?.any preceding.contains

/-! ## Substitution at the cursor -/

/-- What the text under the cursor stands for, if an expression or a variable starts there. -/
def resolveHere (c : Context σ) : Resolver.Located :=
  match c.input.drop c.location with
  | '$' :: '{' :: rest =>
    if c.settings.resolvesExpressions then
      c.settings.resolver.resolveWithin c.strict c.location ('$' :: '{' :: rest)
    else .ok none
  | '$' :: next :: rest =>
    (c.settings.resolver.resolveVariable c.strict c.location ('$' :: next :: rest)).mapError .format
  | _ => .ok none

/-- Replaces what stands under the cursor, at most `rounds` times: an empty replacement exposes the
text after it, which may start another expression. -/
def resolveRounds : Nat → Context σ → Context σ × Option Fault
  | 0, c => (c, none)
  | rounds + 1, c =>
    match c.resolveHere with
    | .error fault => (c, some fault)
    | .ok none => (c, none)
    | .ok (some (fragment, replacement)) =>
      let c := { c with line := c.line.substitute fragment replacement c.location }
      if replacement.isEmpty then resolveRounds rounds c else (c, none)

/-- Replaces the expression or the variable under the cursor, if there is one.  Every round but the
last one removes text, so there are no more rounds than characters.  A fault comes with the
context that the rounds before it left. -/
def resolve (c : Context σ) : Context σ × Option Fault :=
  resolveRounds c.input.length c

@[simp] theorem stack_remember (c : Context σ) (e : FormatError) :
    (c.remember e).stack = c.stack := rfl

@[simp] theorem input_remember (c : Context σ) (e : FormatError) :
    (c.remember e).input = c.input := rfl

@[simp] theorem location_remember (c : Context σ) (e : FormatError) :
    (c.remember e).location = c.location := rfl

/-- The error that is remembered first stays. -/
theorem error_remember_of_isSome {c : Context σ} (h : c.error.isSome = true) (e : FormatError) :
    (c.remember e).error = c.error := by
  obtain ⟨first, hf⟩ := Option.isSome_iff_exists.1 h
  simp [remember, hf]

/-- Substitution happens where the cursor stands and does not move it. -/
theorem location_resolveRounds (rounds : Nat) (c : Context σ) :
    (resolveRounds rounds c).1.location = c.location := by
  induction rounds generalizing c with
  | zero => rfl
  | succ rounds ih =>
    simp only [resolveRounds]
    split
    · rfl
    · rfl
    · split
      · rw [ih]
      · rfl

theorem stack_resolveRounds (rounds : Nat) (c : Context σ) :
    (resolveRounds rounds c).1.stack = c.stack := by
  induction rounds generalizing c with
  | zero => rfl
  | succ rounds ih =>
    simp only [resolveRounds]
    split
    · rfl
    · rfl
    · split
      · rw [ih]
      · rfl

end Context
end CommandLine
