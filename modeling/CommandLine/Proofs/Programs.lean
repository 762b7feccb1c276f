/-
# `CommandLine.Proofs.Programs` — what the programs of the machine do to one session

One equation for each program that is not put together from others, so that no proof has to look
into the monad again: given a session, it says how the program ends and which session it leaves
behind.  Entering and leaving a state are cut into the pieces that are never interrupted, pushing a
frame with its value mark (`opening`) and popping one with its lock (`closing`).
-/
import CommandLine.Run

namespace CommandLine.Machine

variable {σ τ α β : Type}

/-- The session that a program leaves behind, whether or not it ends early. -/
def after (p : Machine σ τ α) (s : Session σ τ) : Session σ τ :=
  match p s with
  | .ok _ t | .error _ t => t

theorem after_of_ok {p : Machine σ τ α} {s t : Session σ τ} {a : α} (h : p s = .ok a t) :
    after p s = t := by
  simp only [after, h]

theorem after_of_error {p : Machine σ τ α} {s t : Session σ τ} {fault : Fault}
    (h : p s = .error fault t) : after p s = t := by
  simp only [after, h]

/-! ## Putting programs together -/

theorem bind_apply_of_ok {p : Machine σ τ α} {s t : Session σ τ} {a : α} (h : p s = .ok a t)
    (k : α → Machine σ τ β) : (p >>= k) s = k a t := by
  simp only [bind, EStateM.bind, h]

theorem bind_apply_of_error {p : Machine σ τ α} {s t : Session σ τ} {fault : Fault}
    (h : p s = .error fault t) (k : α → Machine σ τ β) : (p >>= k) s = .error fault t := by
  simp only [bind, EStateM.bind, h]

/-- A program that has gone through has gone through in both of its parts. -/
theorem ok_of_bind {p : Machine σ τ α} {k : α → Machine σ τ β} {s u : Session σ τ} {b : β}
    (h : (p >>= k) s = .ok b u) : ∃ a t, p s = .ok a t ∧ k a t = .ok b u := by
  cases hp : p s with
  | ok a t => exact ⟨a, t, rfl, (bind_apply_of_ok hp k).symm.trans h⟩
  | error fault t =>
    rw [bind_apply_of_error hp] at h
    cases h

theorem discard_eq (p : Machine σ τ α) : discard p = (p >>= fun _ => pure ()) := by
  rw [bind_pure_comp, Functor.discard, map_const]
  rfl

/-! ## The session -/

@[simp] theorem context_bind_apply (k : Context σ → Machine σ τ β) (s : Session σ τ) :
    (context >>= k) s = k s.context s := rfl

@[simp] theorem update_apply (change : Context σ → Context σ) (s : Session σ τ) :
    update change s = .ok () { s with context := change s.context } := rfl

theorem complain_apply (e : FormatError) (s : Session σ τ) :
    complain e s =
      if s.context.strict then .error (.format e) s
      else .ok () { s with context := s.context.remember e } := by
  rw [complain, context_bind_apply]
  split <;> rfl

/-- The session after a signal was heard. -/
def heard (L : Listener σ τ) (signal : Signal σ) (s : Session σ τ) : Session σ τ :=
  { s with gathered := (L.hear signal s.context s.gathered).gathered }

theorem tell_apply (L : Listener σ τ) (signal : Signal σ) (s : Session σ τ) :
    tell L signal s =
      match (L.hear signal s.context s.gathered).verdict with
      | .accept => .ok () (heard L signal s)
      | .complain e => complain e (heard L signal s)
      | .refuse fault => .error fault (heard L signal s) := by
  show (match (L.hear signal s.context s.gathered).verdict with
    | .accept => pure ()
    | .complain e => complain e
    | .refuse fault => throw fault : Machine σ τ Unit) (heard L signal s) = _
  cases (L.hear signal s.context s.gathered).verdict <;> rfl

theorem place_apply (L : Listener σ τ) (s : Session σ τ) :
    place L s =
      match L.place s.gathered with
      | .ok place => .ok place s
      | .error d => .error (.defect d) s := by
  show (match L.place s.gathered with
    | .ok place => pure place
    | .error d => throw (.defect d) : Machine σ τ Place) s = _
  cases L.place s.gathered <;> rfl

theorem frame_apply (s : Session σ τ) :
    frame s =
      match s.context.frame? with
      | some f => .ok f s
      | none => .error (.breach .noActiveState) s := by
  rw [frame, context_bind_apply]
  cases s.context.frame? <;> rfl

theorem advance_apply (s : Session σ τ) :
    advance s =
      if s.context.atEnd then
        .error (.breach (.pastEnd s.context.location s.context.input.length)) s
      else .ok () { s with context := { s.context with location := s.context.location + 1 } } := by
  rw [advance, context_bind_apply]
  split <;> rfl

theorem resolve_apply (s : Session σ τ) :
    resolve s =
      match s.context.resolve.2 with
      | some fault => .error fault { s with context := s.context.resolve.1 }
      | none => .ok () { s with context := s.context.resolve.1 } := by
  rw [resolve, context_bind_apply]
  cases h : s.context.resolve with
  | mk c failed => cases failed <;> rfl

/-! ## Entering and leaving a state -/

/-- Pushes the frame of a state and lets the value mark follow. -/
def opening (G : Graph σ) (name : σ) : Machine σ τ Unit := do
  push ((← context).frameFor name (G name))
  update (·.markValue (G name))

/-- Pops the innermost frame and unlocks the value mark. -/
def closing : Machine σ τ Unit := do
  pop
  update (·.unlockValue)

/-- Lets the state go on that is innermost once another one has been left. -/
def returnBy (G : Graph σ) (run : Action σ → Machine σ τ Unit) : Machine σ τ Unit := do
  match (← context).frame? with
  | some below => run (G below.state).onReturn
  | none => pure ()

theorem opening_apply (G : Graph σ) (name : σ) (s : Session σ τ) :
    opening G name s =
      match s.context.stack.push (s.context.frameFor name (G name)) with
      | .ok stack =>
        .ok () { s with context := { s.context with stack := stack }.markValue (G name) }
      | .error e => .error (.format e) s := by
  rw [opening, context_bind_apply]
  cases h : s.context.stack.push (s.context.frameFor name (G name)) with
  | ok stack =>
    have hp : push (s.context.frameFor name (G name)) s =
        .ok () { s with context := { s.context with stack := stack } } := by
      rw [push, context_bind_apply, h]
      rfl
    rw [bind_apply_of_ok hp, update_apply]
  | error e =>
    have hp : push (s.context.frameFor name (G name)) s = .error (.format e) s := by
      rw [push, context_bind_apply, h]
      rfl
    rw [bind_apply_of_error hp]

theorem closing_apply (s : Session σ τ) :
    closing s =
      match s.context.stack.pop with
      | .ok (_, stack) => .ok () { s with context := { s.context with stack := stack }.unlockValue }
      | .error d => .error (.defect d) s := by
  rw [closing]
  cases h : s.context.stack.pop with
  | ok popped =>
    have hp : pop s = .ok () { s with context := { s.context with stack := popped.2 } } := by
      rw [pop, context_bind_apply, h]
      rfl
    rw [bind_apply_of_ok hp, update_apply]
  | error d =>
    have hp : pop s = .error (.defect d) s := by
      rw [pop, context_bind_apply, h]
      rfl
    rw [bind_apply_of_error hp]

/-- A program that begins with the innermost frame begins with the context. -/
theorem frame_bind_eq (k : Frame σ → Machine σ τ β) :
    (frame >>= k) = (do
      match (← context).frame? with
      | some f => k f
      | none => throw (.breach .noActiveState)) := by
  funext s
  rw [context_bind_apply]
  cases h : s.context.frame? with
  | some f => exact bind_apply_of_ok (by rw [frame_apply, h]) k
  | none => exact bind_apply_of_error (by rw [frame_apply, h]) k

section

variable {G : Graph σ} {L : Listener σ τ} {run : Action σ → Machine σ τ Unit}

/-- The action for the character under the cursor. -/
theorem dispatchBy_eq :
    dispatchBy G run = (do
      let c ← context
      match c.frame? with
      | some f => run ((G f.state).actionFor c.character)
      | none => throw (.breach .noActiveState)) := by
  rw [dispatchBy, frame_bind_eq]
  funext s
  rw [context_bind_apply, context_bind_apply]
  cases s.context.frame? <;> rfl

/-- Entering a state: its frame, the signal, its first action. -/
theorem enterBy_eq (name : σ) :
    enterBy G L run name = (do
      opening G name
      tell L (.entered name)
      run (G name).onEnter) := by
  simp only [enterBy, opening, bind_assoc]

variable (G L run) in
/-- Takes the innermost state off: the signal, its frame, the action of the state below. -/
def closeBy : Machine σ τ Unit := do
  tell L (.leaving (← frame).state)
  closing
  returnBy G run

/-- Leaving a state: its last action, and then it is taken off. -/
theorem leaveBy_eq :
    leaveBy G L run = (do
      match (← context).frame? with
      | none => throw (.breach .leaveWithoutState)
      | some first => do
        run (G first.state).onLeave
        closeBy G L run
        return first.state) := by
  have answer (x : σ) : (returnBy G run >>= fun _ => pure x) = (do
      match (← context).frame? with
      | some below => do
        run (G below.state).onReturn
        return x
      | none => return x) := by
    funext s
    rw [returnBy, bind_assoc, context_bind_apply, context_bind_apply]
    cases s.context.frame? <;> rfl
  funext s
  rw [leaveBy, context_bind_apply, context_bind_apply]
  cases s.context.frame? with
  | none => rfl
  | some first =>
    dsimp only
    rw [closeBy]
    simp only [closing, bind_assoc]
    exact answer first.state ▸ rfl

end

/-! ## Reading a character -/

/-- Replaces what stands under the cursor, where that is enabled. -/
def prepare : Machine σ τ Unit := do
  if (← context).expressionsEnabled then resolve

/-- Handles the character under the cursor and moves on. -/
def handle (G : Graph σ) (L : Listener σ τ) : Machine σ τ Unit := do
  dispatch G L
  advance

theorem step_eq (G : Graph σ) (L : Listener σ τ) :
    step G L = (do
      prepare
      if (← context).atEnd then pure () else handle G L) := by
  funext s
  unfold step prepare
  rw [context_bind_apply, bind_assoc, context_bind_apply]
  cases s.context.expressionsEnabled <;> rfl

end CommandLine.Machine
