/-
# `CommandLine.Stack` — the states that are active

A state is active from the moment it is entered until it is left.  The active states form a stack
of frames, the innermost first; a frame adds to the state where it was entered and which settings
hold in its scope.  A stack has a limit, so that deep nesting is an error and not a crash.
-/
import CommandLine.Error

namespace CommandLine

/-- The number of states that can be active at once unless another limit is given. -/
def defaultMaxDepth : Int := 256

/-- An active state with the scope it was entered with. -/
structure Frame (σ : Type) where
  /-- The state. -/
  state : σ
  /-- Where the cursor stood when the state was entered. -/
  location : Int
  /-- Escapes are enabled in this scope. -/
  escapes : Bool
  /-- Expressions are resolved in this scope. -/
  expressions : Bool
deriving DecidableEq

/-- The active states, the innermost first. -/
structure Stack (σ : Type) where
  /-- The frames, the innermost first. -/
  frames : List (Frame σ) := []
  /-- The most frames that the stack takes. -/
  maxDepth : Int := defaultMaxDepth
deriving DecidableEq

namespace Stack

variable {σ : Type}

/-- The number of active states. -/
def depth (s : Stack σ) : Nat := s.frames.length

/-- The innermost frame. -/
def top? (s : Stack σ) : Option (Frame σ) := s.frames.head?

/-- The active states, the outermost first. -/
def states (s : Stack σ) : List σ := (s.frames.map Frame.state).reverse

/-- Adds a frame unless the stack is full. -/
def push (s : Stack σ) (frame : Frame σ) : Except FormatError (Stack σ) :=
  if s.maxDepth ≤ s.depth then .error (.nestingTooDeep s.maxDepth frame.location)
  else .ok { s with frames := frame :: s.frames }

/-- Takes the innermost frame off. -/
def pop (s : Stack σ) : Except Defect (Frame σ × Stack σ) :=
  match s.frames with
  | [] => .error .emptyStack
  | frame :: rest => .ok (frame, { s with frames := rest })

/-- Changes the innermost frame. -/
def mapTop (s : Stack σ) (change : Frame σ → Frame σ) : Stack σ :=
  { s with frames := s.frames.modifyHead change }

/-- A frame that has been pushed comes off again. -/
theorem pop_of_push {s t : Stack σ} {frame : Frame σ} (h : s.push frame = .ok t) :
    t.pop = .ok (frame, s) := by
  unfold push at h
  split at h
  · cases h
  · cases h
    rfl

/-- A push never exceeds the limit. -/
theorem depth_le_of_push {s t : Stack σ} {frame : Frame σ} (h : s.push frame = .ok t) :
    (t.depth : Int) ≤ t.maxDepth := by
  unfold push at h
  split at h
  · cases h
  · cases h
    simp only [depth, List.length_cons] at *
    omega

theorem eq_of_push {s t : Stack σ} {frame : Frame σ} (h : s.push frame = .ok t) :
    t = { s with frames := frame :: s.frames } := by
  unfold push at h
  split at h
  · cases h
  · cases h
    rfl

theorem eq_of_pop {s t : Stack σ} {frame : Frame σ} (h : s.pop = .ok (frame, t)) :
    s = { t with frames := frame :: t.frames } := by
  rcases s with ⟨frames, limit⟩
  cases frames with
  | nil => cases h
  | cons first rest =>
    cases h
    rfl

end Stack
end CommandLine
