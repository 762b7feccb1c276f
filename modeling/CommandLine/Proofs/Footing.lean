/-
# `CommandLine.Proofs.Footing` — the part of a context that actions only read

Two runs are compared by standing one of them on the ground of the other.  The *footing* of a
context is what no action changes: the settings, the strictness and the line.  Everything else, the
cursor, the stack, the value mark and the remembered error, is the posture, and `c.onto f` is the
posture of `c` on the footing `f`.

An action reads the line at the cursor only, the look around a separator apart, and so does a
listener that is *local*: it answers alike on two footings that show the same character under the
cursor.  The readers of commands and of values are local, and so is every listener that records
what a local one is told.
-/
import CommandLine.Command.Reader
import CommandLine.Completion
import CommandLine.Machine
import CommandLine.Value.Builder

namespace CommandLine

/-- What a run stands on. -/
structure Footing where
  /-- How the line is read. -/
  settings : Settings
  /-- Whether an error ends the run. -/
  strict : Bool
  /-- The line. -/
  line : Line

namespace Context

variable {σ : Type}

/-- What a context stands on. -/
def footing (c : Context σ) : Footing := ⟨c.settings, c.strict, c.line⟩

/-- The posture of a context on another footing. -/
def onto (c : Context σ) (f : Footing) : Context σ :=
  { c with settings := f.settings, strict := f.strict, line := f.line }

/-! ## What an action changes stays on its footing -/

@[simp] theorem onto_footing (c : Context σ) : c.onto c.footing = c := rfl

@[simp] theorem location_onto (c : Context σ) (f : Footing) :
    (c.onto f).location = c.location := rfl

@[simp] theorem stack_onto (c : Context σ) (f : Footing) : (c.onto f).stack = c.stack := rfl

@[simp] theorem line_onto (c : Context σ) (f : Footing) : (c.onto f).line = f.line := rfl

@[simp] theorem settings_onto (c : Context σ) (f : Footing) :
    (c.onto f).settings = f.settings := rfl

@[simp] theorem error_onto (c : Context σ) (f : Footing) : (c.onto f).error = c.error := rfl

@[simp] theorem valueIndex_onto (c : Context σ) (f : Footing) :
    (c.onto f).valueIndex = c.valueIndex := rfl

@[simp] theorem frame?_onto (c : Context σ) (f : Footing) : (c.onto f).frame? = c.frame? := rfl

@[simp] theorem valueLocked_onto (c : Context σ) (f : Footing) :
    (c.onto f).valueLocked = c.valueLocked := rfl

@[simp] theorem escapesEnabled_onto (c : Context σ) (f : Footing) :
    (c.onto f).escapesEnabled = c.escapesEnabled := rfl

@[simp] theorem expressionsEnabled_onto (c : Context σ) (f : Footing) :
    (c.onto f).expressionsEnabled = c.expressionsEnabled := rfl

/-- Marking a value changes the value mark only. -/
theorem markValue_eq (c : Context σ) (s : State σ) :
    c.markValue s =
      { c with valueIndex := (c.markValue s).valueIndex
               lockDepth := (c.markValue s).lockDepth } := by
  unfold markValue
  split <;> rfl

@[simp] theorem footing_markValue (c : Context σ) (s : State σ) :
    (c.markValue s).footing = c.footing := by
  rw [markValue_eq]
  rfl

@[simp] theorem location_markValue (c : Context σ) (s : State σ) :
    (c.markValue s).location = c.location := by
  rw [markValue_eq]

@[simp] theorem stack_markValue (c : Context σ) (s : State σ) :
    (c.markValue s).stack = c.stack := by
  rw [markValue_eq]

theorem markValue_onto (c : Context σ) (f : Footing) (s : State σ) :
    (c.onto f).markValue s = (c.markValue s).onto f := by
  unfold markValue onto
  split <;> rfl

/-- Unlocking the value mark changes nothing else. -/
theorem unlockValue_eq (c : Context σ) :
    c.unlockValue = { c with lockDepth := c.unlockValue.lockDepth } := by
  unfold unlockValue
  split
  · split <;> rfl
  · rfl

@[simp] theorem footing_unlockValue (c : Context σ) : c.unlockValue.footing = c.footing := by
  rw [unlockValue_eq]
  rfl

@[simp] theorem location_unlockValue (c : Context σ) :
    c.unlockValue.location = c.location := by
  rw [unlockValue_eq]

@[simp] theorem stack_unlockValue (c : Context σ) : c.unlockValue.stack = c.stack := by
  rw [unlockValue_eq]

theorem unlockValue_onto (c : Context σ) (f : Footing) :
    (c.onto f).unlockValue = c.unlockValue.onto f := by
  rcases c with ⟨_, _, _, _, stack, _, lockDepth, _⟩
  cases lockDepth with
  | none => rfl
  | some depth =>
    by_cases h : stack.depth < depth <;> simp [unlockValue, onto, h]

/-- Replacing goes the same way in a context that shows the same at the cursor, whatever else tells
the two apart. -/
theorem resolveRounds_map {f : Context σ → Context σ}
    (hhere : ∀ c, (f c).resolveHere = c.resolveHere)
    (hsubstitute : ∀ (c : Context σ) (fragment replacement : Text),
      { f c with line := (f c).line.substitute fragment replacement (f c).location } =
        f { c with line := c.line.substitute fragment replacement c.location })
    (rounds : Nat) (c : Context σ) :
    resolveRounds rounds (f c) = (f (resolveRounds rounds c).1, (resolveRounds rounds c).2) := by
  induction rounds generalizing c with
  | zero => rfl
  | succ rounds ih =>
    simp only [resolveRounds, hhere]
    rcases c.resolveHere with fault | _ | ⟨fragment, replacement⟩
    · rfl
    · rfl
    · by_cases hempty : replacement.isEmpty
      · simp only [if_pos hempty, hsubstitute]
        exact ih _
      · simp only [if_neg hempty, hsubstitute]

/-! ## The active states -/

/-- The active states, the innermost first. -/
def active (c : Context σ) : List σ := c.stack.frames.map Frame.state

@[simp] theorem active_markValue (c : Context σ) (s : State σ) :
    (c.markValue s).active = c.active := by
  rw [active, stack_markValue, active]

@[simp] theorem active_unlockValue (c : Context σ) : c.unlockValue.active = c.active := by
  rw [active, stack_unlockValue, active]

@[simp] theorem active_configure (c : Context σ) (escapes expressions : Option Bool) :
    (c.configure escapes expressions).active = c.active := by
  show (List.modifyHead _ c.stack.frames).map Frame.state = c.stack.frames.map Frame.state
  cases c.stack.frames <;> rfl

theorem active_of_push {c : Context σ} {name : σ} {s : State σ} {stack : Stack σ}
    (h : c.stack.push (c.frameFor name s) = .ok stack) :
    ({ c with stack := stack } : Context σ).active = name :: c.active := by
  unfold Stack.push at h
  split at h
  · cases h
  · cases h
    rfl

theorem active_of_pop {c : Context σ} {frame : Frame σ} {stack : Stack σ}
    (h : c.stack.pop = .ok (frame, stack)) :
    c.active = frame.state :: ({ c with stack := stack } : Context σ).active := by
  unfold Stack.pop at h
  split at h
  · cases h
  · next first rest hframes =>
    cases h
    simp only [active, hframes, List.map_cons]

theorem active_of_frame? {c : Context σ} {frame : Frame σ} (h : c.frame? = some frame) :
    c.active.head? = some frame.state := by
  have h' : c.stack.frames.head? = some frame := h
  rw [active, List.head?_map, h']
  rfl

/-- There is a frame wherever a state is active. -/
theorem frame?_of_active {c : Context σ} {x : σ} {outer : List σ} (h : c.active = x :: outer) :
    ∃ frame, c.frame? = some frame ∧ frame.state = x := by
  unfold active at h
  cases hframes : c.stack.frames with
  | nil =>
    rw [hframes] at h
    cases h
  | cons frame rest =>
    rw [hframes] at h
    exact ⟨frame, congrArg List.head? hframes, (List.cons.inj h).1⟩

theorem frame?_of_active_nil {c : Context σ} (h : c.active = []) : c.frame? = none := by
  have hframes : c.stack.frames = [] := List.map_eq_nil_iff.1 h
  exact congrArg List.head? hframes

/-! ## Two footings that show the same character -/

/-- The other footing shows the same character under the cursor. -/
def SeesAlike (c : Context σ) (f : Footing) : Prop := (c.onto f).character? = c.character?

theorem atEnd_eq_isNone (c : Context σ) : c.atEnd = c.character?.isNone := by
  rw [Bool.eq_iff_iff]
  simp [atEnd, character?]

namespace SeesAlike

variable {c : Context σ} {f : Footing}

/-- What is seen depends on the line and the cursor only. -/
theorem of_eq {d : Context σ} (h : c.SeesAlike f) (hline : d.line = c.line)
    (hlocation : d.location = c.location) : d.SeesAlike f := by
  unfold SeesAlike character? input at h ⊢
  rw [location_onto, hline, hlocation]
  exact h

theorem character (h : c.SeesAlike f) : (c.onto f).character = c.character := by
  rw [Context.character, h]
  rfl

theorem atEnd (h : c.SeesAlike f) : (c.onto f).atEnd = c.atEnd := by
  rw [atEnd_eq_isNone, atEnd_eq_isNone, h]

end SeesAlike
end Context

/-! ## Local listeners -/

namespace Listener

variable {σ τ : Type}

/-- The listener reads the line at the cursor only. -/
def IsLocal (L : Listener σ τ) : Prop :=
  ∀ (signal : Signal σ) (c : Context σ) (f : Footing) (gathered : τ), c.SeesAlike f →
    L.hear signal (c.onto f) gathered = L.hear signal c gathered

/-- A trace holds nothing of the line but the character under the cursor. -/
theorem isLocal_recording {L : Listener σ τ} (hL : L.IsLocal) : IsLocal (recording L) := by
  intro signal c f gathered h
  have hentry : Entry.of signal (c.onto f) = Entry.of signal c := by
    simp only [Entry.of, h.character, Context.location_onto, Context.stack_onto,
      Context.valueIndex_onto, Context.valueLocked_onto, Context.escapesEnabled_onto,
      Context.expressionsEnabled_onto]
  simp only [recording, hentry, hL signal c f gathered.2 h]

end Listener

namespace Reading

variable {c : Context StateName} {f : Footing}

@[simp] theorem isPositional_onto (c : Context StateName) (f : Footing) :
    isPositional (c.onto f) = isPositional c := rfl

/-- What a reader does when a state is entered depends on the cursor and the active states only. -/
theorem entered_onto (c : Context StateName) (f : Footing) (state : StateName) :
    entered (c.onto f) state = entered c state := by
  cases state <;> rfl

/-- The reaction of a reader to a signal depends on the line at the cursor only. -/
theorem signal_onto (h : c.SeesAlike f) (signal : Signal StateName) :
    Reading.signal (c.onto f) signal = Reading.signal c signal := by
  have hc : (c.onto f).character? = c.character? := h
  cases signal with
  | entered state => exact entered_onto c f state
  | leaving state =>
    cases state <;>
      simp only [Reading.signal, leaving, nodeDone, argumentDone, argumentValueDone, propertyDone,
        headerDone, takeValue, argumentGap, reportOn, reportFlag, isPositional_onto, hc, h.atEnd,
        Context.location_onto, Context.error_onto]
  | content => simp only [Reading.signal, h.character]
  | itemEnd => rfl
  | nameEnd => rfl

end Reading

theorem Reader.isLocal_listener {η : Type} (handler : Handler η) :
    (Reader.listener handler).IsLocal := by
  intro signal c f gathered h
  simp only [Reader.listener, Reader.hear, Reading.signal_onto h]

/-- The line makes no difference when a state is entered. -/
theorem Reader.hear_entered_onto {η : Type} (handler : Handler η) (state : StateName)
    (c : Context StateName) (f : Footing) (gathered : Reader × η) :
    (Reader.listener handler).hear (.entered state) (c.onto f) gathered =
      (Reader.listener handler).hear (.entered state) c gathered := by
  simp only [Reader.listener, Reader.hear, Reading.signal, Reading.entered_onto]

theorem Value.Builder.isLocal_listener : Builder.listener.IsLocal := by
  intro signal c f gathered h
  cases signal <;>
    simp only [Builder.listener, Builder.hear, h.character, Context.location_onto,
      Context.frame?_onto]

theorem TypedValue.isLocal_listener : TypedValue.listener.IsLocal := by
  intro signal c f gathered h
  cases signal <;> simp only [TypedValue.listener, h.character]

end CommandLine
