/-
# `CommandLine.Proofs.Patience` — a value is found unfinished at the end of the line only

As long as there are characters to read a value may still be closed, so no action for a character
complains that a closing delimiter is missing: that is left to the actions at the end of the line.
A program is *patient* if it never ends with this complaint, whatever session it starts from.

    pieces        are patient with a listener that is                (`Listener.IsPatient`)
    actions       are patient if nothing they set off is the complaint  (`Action.isPatient`)
    a walk        handles characters only, so it is patient          (`Patient.walk`)

The graph of all grammars is patient (`isPatient_grammar`), and so is the builder of values.
-/
import CommandLine.Proofs.Scenes

namespace CommandLine

/-! ## Patient programs -/

/-- The fault is that a value lacks its closing delimiter. -/
def Fault.isNotFinished : Fault → Bool
  | .format e => e.isNotFinished
  | _ => false

/-- The verdict is that a value lacks its closing delimiter. -/
def Verdict.isNotFinished : Verdict → Bool
  | accept => false
  | complain e => e.isNotFinished
  | refuse fault => fault.isNotFinished

/-- The listener leaves it to the machine to find a value unfinished. -/
def Listener.IsPatient {σ τ : Type} (L : Listener σ τ) : Prop :=
  ∀ (signal : Signal σ) (c : Context σ) (gathered : τ),
    (L.hear signal c gathered).verdict.isNotFinished = false

namespace Action

variable {σ : Type}

/-- The action is neither the complaint nor put together from others. -/
def isMild : Action σ → Bool
  | notFinished _ | chain _ | besideSeparator _ _ _ => false
  | _ => true

/-- The action is not the complaint that a value is unfinished, and neither is one that it is put
together from. -/
def isPatient : Action σ → Bool
  | notFinished _ => false
  | chain actions => actions.all isMild
  | besideSeparator _ _ otherwise => otherwise.isMild
  | _ => true

theorem isPatient_of_isMild {a : Action σ} (h : a.isMild = true) : a.isPatient = true := by
  cases a <;> first | rfl | cases h

end Action

/-- No action that a character can set off is the complaint that a value is unfinished. -/
structure Graph.IsPatient {σ : Type} (G : Graph σ) : Prop where
  closed : ∀ {a b : Action σ}, a.isPatient = true → a.SetsOff G b → b.isPatient = true
  dispatched : ∀ (x : σ) (character : Text), ((G x).actionFor character).isPatient = true
  onEnter : ∀ x : σ, (G x).onEnter.isPatient = true

namespace Machine

variable {σ τ α β : Type}

/-- Whatever session it starts from, the program does not find a value unfinished. -/
def Patient (p : Machine σ τ α) : Prop :=
  ∀ s, Ends (fun fault _ => fault.isNotFinished = false) (fun _ _ => True) p s

namespace Patient

variable {G : Graph σ} {L : Listener σ τ}

/-! ### Putting programs together -/

theorem pure (a : α) : Patient (pure a : Machine σ τ α) := fun _ => trivial

theorem throw {fault : Fault} (h : fault.isNotFinished = false) :
    Patient (throw fault : Machine σ τ α) := fun _ => h

theorem bind {p : Machine σ τ α} {k : α → Machine σ τ β} (hp : Patient p)
    (hk : ∀ a, Patient (k a)) : Patient (p >>= k) := fun s => (hp s).bind fun a t _ => hk a t

theorem read {k : Context σ → Machine σ τ β} (hk : ∀ c, Patient (k c)) :
    Patient (context >>= k) := fun s => .read (hk s.context s)

theorem discard {p : Machine σ τ α} (hp : Patient p) : Patient (Functor.discard p) :=
  fun s => (hp s).discard

theorem forM {run : Action σ → Machine σ τ Unit} {actions : List (Action σ)}
    (hrun : ∀ a ∈ actions, Patient (run a)) : Patient (actions.forM run) := by
  induction actions with
  | nil => exact .pure ()
  | cons a rest ih =>
    refine (hrun a List.mem_cons_self).bind fun _ => ih ?_
    exact fun b hb => hrun b (List.mem_cons_of_mem a hb)

/-! ### The pieces -/

theorem frame : Patient (frame : Machine σ τ (Frame σ)) := by
  intro s
  rw [Ends, frame_apply]
  cases s.context.frame? with
  | some f => exact trivial
  | none => exact rfl

theorem place : Patient (place L) := by
  intro s
  rw [Ends, place_apply]
  cases L.place s.gathered with
  | ok p => exact trivial
  | error d => exact rfl

theorem complain {e : FormatError} (h : e.isNotFinished = false) :
    Patient (complain e : Machine σ τ Unit) :=
  fun _ => .complain (fun _ => h) fun _ => trivial

theorem tell (hL : L.IsPatient) (signal : Signal σ) : Patient (tell L signal) := by
  intro s
  have hverdict := hL signal s.context s.gathered
  refine .tell (fun _ => trivial) (fun {e} hv => ?_) fun {fault} hv => ?_
  · rw [hv] at hverdict
    exact complain hverdict _
  · rw [hv] at hverdict
    exact hverdict

theorem opening (x : σ) : Patient (opening G x : Machine σ τ Unit) :=
  fun _ => .opening (fun _ => trivial) fun _ => rfl

theorem closing : Patient (closing : Machine σ τ Unit) := by
  intro s
  rw [Ends, closing_apply]
  cases s.context.stack.pop with
  | ok popped => exact trivial
  | error d => exact rfl

theorem prepare : Patient (prepare : Machine σ τ Unit) := by
  refine read fun c => ?_
  split
  · intro s
    rw [Ends, resolve_apply]
    cases he : s.context.resolve.2 with
    | none => exact trivial
    | some fault =>
      cases Context.refuses_of_resolve he with
      | @unresolved e _ hunresolved =>
        show e.isNotFinished = false
        cases e <;> first | rfl | cases hunresolved
      | tooDeep => exact rfl
  · exact .pure ()

theorem advance : Patient (advance : Machine σ τ Unit) := by
  intro s
  rw [Ends, advance_apply]
  cases s.context.atEnd with
  | true => exact rfl
  | false => exact trivial

/-! ### Actions -/

section

variable {run : Action σ → Machine σ τ Unit} (hG : G.IsPatient) (hL : L.IsPatient)
  (hrun : ∀ a : Action σ, a.isPatient = true → Patient (run a))

include hL hrun in
theorem enterBy {x : σ} (hfirst : (G x).onEnter.isPatient = true) :
    Patient (enterBy G L run x) := by
  rw [enterBy_eq]
  exact (opening x).bind fun _ => (tell hL _).bind fun _ => hrun _ hfirst

include hrun in
theorem returnBy (hreturn : ∀ x, (G x).onReturn.isPatient = true) : Patient (returnBy G run) := by
  refine read fun c => ?_
  cases c.frame? with
  | none => exact .pure ()
  | some below => exact hrun _ (hreturn _)

include hL hrun in
theorem leaveBy (hlast : ∀ x, (G x).onLeave.isPatient = true)
    (hreturn : ∀ x, (G x).onReturn.isPatient = true) : Patient (leaveBy G L run) := by
  have close : Patient (closeBy G L run) :=
    frame.bind fun _ => (tell hL _).bind fun _ => closing.bind fun _ => returnBy hrun hreturn
  rw [leaveBy_eq]
  refine read fun c => ?_
  cases c.frame? with
  | none => exact .throw rfl
  | some first => exact (hrun _ (hlast _)).bind fun _ => close.bind fun _ => .pure _

include hG hrun in
theorem dispatchBy : Patient (dispatchBy G run) := by
  rw [dispatchBy_eq]
  refine read fun c => ?_
  cases c.frame? with
  | none => exact .throw rfl
  | some f => exact hrun _ (hG.dispatched f.state c.character)

include hG hL hrun

theorem perform {action : Action σ} (ha : action.isPatient = true) :
    Patient (perform G L run action) := by
  have entering {x : σ} (hx : x ∈ action.mayEnter) : Patient (Machine.enterBy G L run x) :=
    enterBy hL hrun (hG.closed ha (.first hx))
  have leaving (h : action.mayLeave = true) :
      Patient (Functor.discard (Machine.leaveBy G L run)) :=
    discard (leaveBy hL hrun (fun x => hG.closed ha (.last x h))
      fun x => hG.closed ha (.returned x h))
  have content : Patient (Machine.tell L .content) := tell hL _
  cases action with
  | skip => exact .pure ()
  | content => exact content
  | leave => exact leaving rfl
  | contentAndLeave => exact content.bind fun _ => leaving rfl
  | dispatch => exact dispatchBy hG hrun
  | undefined => exact .throw rfl
  | enter state => exact entering List.mem_cons_self
  | escape state =>
    refine read fun c => ?_
    split
    · exact entering List.mem_cons_self
    · exact content
  | chain actions => exact forM fun a hmem => hrun a (hG.closed ha (.chained hmem))
  | notFinished delimiter => cases ha
  | configure escapes expressions => exact frame.bind fun _ => fun _ => trivial
  | besideSeparator following preceding otherwise =>
    refine read fun c => ?_
    split
    · exact .pure ()
    · exact hrun _ (hG.closed ha .otherwise)
  | leaveOnGap | leaveOn characters =>
    refine read fun c => ?_
    split
    · exact leaving rfl
    · exact .pure ()
  | enterUnlessEnd state =>
    refine read fun c => ?_
    split
    · exact .pure ()
    · exact entering List.mem_cons_self
  | startValue state =>
    refine place.bind fun p => ?_
    split
    · exact entering List.mem_cons_self
    · exact content
  | startBraces object bytes =>
    refine place.bind fun p => ?_
    split
    · exact entering List.mem_cons_self
    · split
      · exact entering (List.mem_cons_of_mem _ List.mem_cons_self)
      · exact content
  | endItem => exact place.bind fun _ => tell hL _
  | endName =>
    refine place.bind fun p => (tell hL _).bind fun _ => ?_
    split
    · exact .pure ()
    · exact content

end

/-! ### Runs -/

variable (hG : G.IsPatient) (hL : L.IsPatient)
include hG hL

theorem actUpTo (limit : Nat) {action : Action σ} (ha : action.isPatient = true) :
    Patient (actUpTo G L limit action) := by
  induction limit generalizing action with
  | zero => exact .throw rfl
  | succ limit ih => exact perform hG hL (fun _ hb => ih hb) ha

/-- Entering a state finds nothing unfinished. -/
theorem enter (x : σ) : Patient (enter G L x) :=
  enterBy hL (fun _ ha => actUpTo hG hL _ ha) (hG.onEnter x)

theorem step : Patient (step G L) := by
  have handling : Patient (handle G L) :=
    (dispatchBy hG fun _ ha => actUpTo hG hL _ ha).bind fun _ => advance
  rw [step_eq]
  refine prepare.bind fun _ => read fun c => ?_
  split
  · exact .pure ()
  · exact handling

/-- Reading characters finds nothing unfinished. -/
theorem walk (limit : Nat) : Patient (walk G L limit) := by
  induction limit with
  | zero =>
    refine read fun c => ?_
    split
    · exact .pure ()
    · exact .throw rfl
  | succ limit ih =>
    refine read fun c => ?_
    split
    · exact .pure ()
    · exact (step hG hL).bind fun _ => ih

end Patient
end Machine

/-! ## The grammars -/

/-- No grammar complains of an unfinished value before the end of the line. -/
theorem isPatient_grammar : grammar.IsPatient where
  closed := by
    intro a b ha hb
    cases hb with
    | last x _ => cases x <;> rfl
    | returned x _ => cases x <;> rfl
    | @first _ x _ => cases x <;> rfl
    | chained hmem => exact Action.isPatient_of_isMild (List.all_eq_true.1 ha _ hmem)
    | otherwise => exact Action.isPatient_of_isMild ha
  dispatched x character := by
    refine State.actionFor_all ?_ ?_ ?_ character
    all_goals cases x <;> rfl
  onEnter x := by cases x <;> rfl

namespace Value.Builder

theorem isNotFinished_of_isValueError {e : FormatError} (h : IsValueError e) :
    e.isNotFinished = false := (Bool.or_eq_false_iff.1 h.2).2

variable (b : Builder)

theorem isNotFinished_mapLevel (change : Level → Level) :
    (b.mapLevel change).verdict.isNotFinished = false := by
  unfold mapLevel
  split <;> rfl

theorem isNotFinished_closeLevel : b.closeLevel.verdict.isNotFinished = false := by
  unfold closeLevel
  split
  · rfl
  · next level outer =>
    dsimp only
    split
    · next e hvalue => exact isNotFinished_of_isValueError (Level.value_error hvalue)
    · split
      · rfl
      · exact isNotFinished_mapLevel _ _

theorem isNotFinished_closeBytes (start : Option Int) :
    (b.closeBytes start).verdict.isNotFinished = false := by
  unfold closeBytes
  split
  · rfl
  · rfl
  · split
    · next e hbytes => exact isNotFinished_of_isValueError (readBytes_error hbytes)
    · exact isNotFinished_mapLevel _ _

theorem isNotFinished_takeContent (character : Text) (location : Int) :
    (b.takeContent character location).verdict.isNotFinished = false := by
  unfold takeContent
  split
  · rfl
  · split
    · rfl
    · exact isNotFinished_mapLevel _ _

/-- The builder of a value finds fault with what it is told, never with what is still to come. -/
theorem isPatient_listener : listener.IsPatient := by
  intro signal c b
  cases signal with
  | entered x => cases x <;> first | rfl | exact isNotFinished_mapLevel _ _
  | leaving x =>
    cases x <;>
      first
        | rfl
        | exact isNotFinished_closeLevel b
        | exact isNotFinished_mapLevel _ _
        | exact isNotFinished_closeBytes b _
  | content => exact isNotFinished_takeContent b _ _
  | itemEnd => exact isNotFinished_mapLevel _ _
  | nameEnd => exact isNotFinished_mapLevel _ _

end Value.Builder
end CommandLine
