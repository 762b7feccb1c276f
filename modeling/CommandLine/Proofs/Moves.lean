/-
# `CommandLine.Proofs.Moves` — what a run can do to a session

Whatever a graph and a listener look like, a run changes its session by seven kinds of moves:

    opened        a frame is pushed and the value mark follows
    closed        the innermost frame is popped and the value mark is unlocked
    told          the listener hears a signal
    remembered    an error is passed over; only lenient runs do that
    configured    the settings of the innermost scope are switched
    substituted   the expression or the variable under the cursor is replaced
    advanced      the cursor moves to the next character

A program *moves* from a session to the one that it leaves behind, whether or not it ends early,
so a property that each kind of move keeps holds of every run up to its last moment.  Kept are the
settings and the strictness, the first remembered error, the text before the cursor and all that a
listener has recorded.
-/
import CommandLine.Proofs.Footing
import CommandLine.Proofs.Programs
import Mathlib.Logic.Relation

namespace CommandLine

/-- One move of a session. -/
inductive Move {σ τ : Type} (G : Graph σ) (L : Listener σ τ) (s : Session σ τ) :
    Session σ τ → Prop
  | opened (name : σ) {stack : Stack σ}
      (room : s.context.stack.push (s.context.frameFor name (G name)) = .ok stack) :
      Move G L s
        { s with context := { s.context with stack := stack }.markValue (G name) }
  | closed {frame : Frame σ} {stack : Stack σ}
      (popped : s.context.stack.pop = .ok (frame, stack)) :
      Move G L s { s with context := { s.context with stack := stack }.unlockValue }
  | told (signal : Signal σ) :
      Move G L s { s with gathered := (L.hear signal s.context s.gathered).gathered }
  | remembered (e : FormatError) (lenient : s.context.strict = false) :
      Move G L s { s with context := s.context.remember e }
  | configured (escapes expressions : Option Bool) :
      Move G L s { s with context := s.context.configure escapes expressions }
  | substituted {fragment replacement : Text}
      (found : s.context.resolveHere = .ok (some (fragment, replacement))) :
      Move G L s
        { s with context := { s.context with
            line := s.context.line.substitute fragment replacement s.context.location } }
  | advanced (inside : s.context.atEnd = false) :
      Move G L s { s with context := { s.context with location := s.context.location + 1 } }

/-- Any number of moves. -/
abbrev Moves {σ τ : Type} (G : Graph σ) (L : Listener σ τ) :
    Session σ τ → Session σ τ → Prop :=
  Relation.ReflTransGen (Move G L)

/-- The listener only ever adds to what it has recorded. -/
def Listener.Logs {σ τ ε : Type} (L : Listener σ τ) (log : τ → List ε) : Prop :=
  ∀ (signal : Signal σ) (c : Context σ) (gathered : τ),
    log gathered <+: log (L.hear signal c gathered).gathered

section

variable {σ τ : Type} {G : Graph σ} {L : Listener σ τ} {s t : Session σ τ}

/-! ## What every move keeps -/

/-- What each move keeps, any number of moves keep. -/
theorem Moves.induct {P : Session σ τ → Prop}
    (keeps : ∀ {s t : Session σ τ}, Move G L s t → P s → P t) (h : Moves G L s t) (hs : P s) :
    P t := by
  induction h with
  | refl => exact hs
  | tail _ last ih => exact keeps last ih

theorem Move.settings_eq (h : Move G L s t) : t.context.settings = s.context.settings := by
  cases h with
  | opened name room => rw [Context.markValue_eq]
  | closed popped => rw [Context.unlockValue_eq]
  | _ => rfl

theorem Move.strict_eq (h : Move G L s t) : t.context.strict = s.context.strict := by
  cases h with
  | opened name room => rw [Context.markValue_eq]
  | closed popped => rw [Context.unlockValue_eq]
  | _ => rfl

theorem Move.maxDepth_eq (h : Move G L s t) :
    t.context.stack.maxDepth = s.context.stack.maxDepth := by
  cases h with
  | opened name room => rw [Context.stack_markValue, Stack.eq_of_push room]
  | closed popped => rw [Context.stack_unlockValue, Stack.eq_of_pop popped]
  | _ => rfl

theorem Moves.settings_eq (h : Moves G L s t) : t.context.settings = s.context.settings :=
  h.induct (P := fun u => u.context.settings = s.context.settings)
    (fun m hs => m.settings_eq.trans hs) rfl

theorem Moves.strict_eq (h : Moves G L s t) : t.context.strict = s.context.strict :=
  h.induct (P := fun u => u.context.strict = s.context.strict)
    (fun m hs => m.strict_eq.trans hs) rfl

theorem Moves.maxDepth_eq (h : Moves G L s t) :
    t.context.stack.maxDepth = s.context.stack.maxDepth :=
  h.induct (P := fun u => u.context.stack.maxDepth = s.context.stack.maxDepth)
    (fun m hs => m.maxDepth_eq.trans hs) rfl

/-! ### The remembered error -/

theorem Move.error_eq (h : Move G L s t) :
    t.context.error = s.context.error ∨
      s.context.strict = false ∧ ∃ e, t.context.error = s.context.error.or (some e) := by
  cases h with
  | opened name room => exact .inl (by rw [Context.markValue_eq])
  | closed popped => exact .inl (by rw [Context.unlockValue_eq])
  | remembered e lenient => exact .inr ⟨lenient, e, rfl⟩
  | _ => exact .inl rfl

/-- The first error stays. -/
theorem Moves.error_of_some {e : FormatError} (h : Moves G L s t)
    (he : s.context.error = some e) : t.context.error = some e := by
  refine h.induct (P := fun u => u.context.error = some e) (fun m hs => ?_) he
  rcases m.error_eq with h | ⟨_, e', h⟩
  · rw [h, hs]
  · rw [h, hs]
    rfl

/-- A strict run remembers no error. -/
theorem Moves.error_of_strict (h : Moves G L s t) (hs : s.context.strict = true) :
    t.context.error = s.context.error := by
  refine (h.induct (P := fun u => u.context.strict = true ∧ u.context.error = s.context.error)
    (fun m hu => ?_) ⟨hs, rfl⟩).2
  refine ⟨m.strict_eq.trans hu.1, ?_⟩
  rcases m.error_eq with h | ⟨lenient, _⟩
  · rw [h, hu.2]
  · rw [hu.1] at lenient
    cases lenient

/-! ### The record of a listener -/

theorem Moves.log_prefix {ε : Type} {log : τ → List ε} (hlog : L.Logs log)
    (h : Moves G L s t) : log s.gathered <+: log t.gathered := by
  refine h.induct (P := fun u => log s.gathered <+: log u.gathered) (fun m hs => ?_)
    (List.prefix_refl _)
  cases m with
  | told signal => exact hs.trans (hlog signal _ _)
  | _ => exact hs

/-! ### The text before the cursor -/

/-- `t` comes after `s` on the same line: the cursor has not moved back, and the text before the
cursor of `s` reads as it did. -/
structure Later (s t : Session σ τ) : Prop where
  inside : t.context.location ≤ t.context.input.length
  forward : s.context.location ≤ t.context.location
  settled : t.context.input.take s.context.location = s.context.input.take s.context.location

theorem Later.refl (h : s.context.location ≤ s.context.input.length) : Later s s :=
  ⟨h, Nat.le_refl _, rfl⟩

theorem Later.trans {u : Session σ τ} (hst : Later s t) (htu : Later t u) : Later s u where
  inside := htu.inside
  forward := Nat.le_trans hst.forward htu.forward
  settled := by
    have h := congrArg (List.take s.context.location) htu.settled
    rw [List.take_take, List.take_take, Nat.min_eq_left hst.forward] at h
    rw [h, hst.settled]

theorem Later.of_same_line (hl : t.context.location = s.context.location)
    (hi : t.context.line = s.context.line) (h : s.context.location ≤ s.context.input.length) :
    Later s t := by
  have hinput : t.context.input = s.context.input := congrArg Line.substituted hi
  exact ⟨by rw [hinput, hl]; exact h, Nat.le_of_eq hl.symm, by rw [hinput]⟩

theorem Move.later (h : Move G L s t) (inside : s.context.location ≤ s.context.input.length) :
    Later s t := by
  cases h with
  | opened name room =>
    refine .of_same_line (Context.location_markValue _ _) ?_ inside
    rw [Context.markValue_eq]
  | closed popped =>
    refine .of_same_line (Context.location_unlockValue _) ?_ inside
    rw [Context.unlockValue_eq]
  | told signal => exact .of_same_line rfl rfl inside
  | remembered e lenient => exact .of_same_line rfl rfl inside
  | configured escapes expressions => exact .of_same_line rfl rfl inside
  | @substituted fragment replacement found =>
    have htake : (s.context.input.take s.context.location).length = s.context.location := by
      rw [List.length_take]
      omega
    constructor
    · show s.context.location ≤ (s.context.input.replaceAt _ _ _).length
      rw [Text.replaceAt, List.append_assoc, List.length_append, htake]
      omega
    · exact Nat.le_refl _
    · show (s.context.input.replaceAt _ _ _).take _ = _
      rw [Text.replaceAt, List.append_assoc]
      exact List.take_left' htake
  | advanced hend =>
    have hlt : s.context.location < s.context.input.length := by
      simpa [Context.atEnd] using hend
    exact ⟨hlt, Nat.le_succ _, rfl⟩

/-- What a run has read never changes again. -/
theorem Moves.later (h : Moves G L s t) (inside : s.context.location ≤ s.context.input.length) :
    Later s t :=
  h.induct (P := fun u => Later s u) (fun m hu => hu.trans (m.later hu.inside)) (.refl inside)

/-- Each round of resolving is a substitution. -/
theorem Moves.of_resolveRounds (rounds : Nat) (s : Session σ τ) :
    Moves G L s { s with context := (Context.resolveRounds rounds s.context).1 } := by
  induction rounds generalizing s with
  | zero => exact .refl
  | succ rounds ih =>
    simp only [Context.resolveRounds]
    cases h : s.context.resolveHere with
    | error e => exact .refl
    | ok found =>
      cases found with
      | none => exact .refl
      | some found =>
        have first : Move G L s _ := .substituted h
        by_cases hr : found.2.isEmpty
        · simp only [if_pos hr]
          exact (Relation.ReflTransGen.single first).trans (ih _)
        · simp only [if_neg hr]
          exact .single first

end

/-! ## Programs follow moves -/

namespace Machine

variable {σ τ α β : Type} {G : Graph σ} {L : Listener σ τ}

/-- A program does nothing to a session but moves. -/
def Follows (G : Graph σ) (L : Listener σ τ) (p : Machine σ τ α) : Prop :=
  ∀ s, Moves G L s (after p s)

namespace Follows

theorem pure (a : α) : Follows G L (pure a) := fun _ => .refl

theorem throw (fault : Fault) : Follows G L (throw fault : Machine σ τ α) := fun _ => .refl

theorem bind {p : Machine σ τ α} {k : α → Machine σ τ β} (hp : Follows G L p)
    (hk : ∀ a, Follows G L (k a)) : Follows G L (p >>= k) := by
  intro s
  have hs := hp s
  cases h : p s with
  | ok a t =>
    rw [after_of_ok h] at hs
    rw [after, bind_apply_of_ok h]
    exact hs.trans (hk a t)
  | error fault t =>
    rw [after_of_error h] at hs
    rw [after, bind_apply_of_error h]
    exact hs

/-- Reading the context moves nothing. -/
theorem read {k : Context σ → Machine σ τ β} (hk : ∀ c, Follows G L (k c)) :
    Follows G L (context >>= k) := fun s => hk s.context s

theorem discard {p : Machine σ τ α} (hp : Follows G L p) : Follows G L (discard p) := by
  rw [discard_eq]
  exact hp.bind fun _ => .pure _

theorem forM {run : Action σ → Machine σ τ Unit} (hrun : ∀ a, Follows G L (run a))
    (actions : List (Action σ)) : Follows G L (actions.forM run) := by
  induction actions with
  | nil => exact .pure _
  | cons a rest ih => exact (hrun a).bind fun _ => ih

theorem complain (e : FormatError) : Follows G L (complain e) := by
  intro s
  rw [after, complain_apply]
  cases h : s.context.strict with
  | true => exact .refl
  | false => exact .single (.remembered e h)

theorem tell (signal : Signal σ) : Follows G L (tell L signal) := by
  intro s
  have first : Moves G L s (heard L signal s) := .single (.told signal)
  rw [after, tell_apply]
  cases (L.hear signal s.context s.gathered).verdict with
  | accept => exact first
  | complain e => exact first.trans (complain e _)
  | refuse fault => exact first

theorem place : Follows G L (place L) := by
  intro s
  rw [after, place_apply]
  cases L.place s.gathered <;> exact .refl

theorem frame : Follows G L frame := by
  intro s
  rw [after, frame_apply]
  cases s.context.frame? <;> exact .refl

theorem opening (name : σ) : Follows G L (opening G name) := by
  intro s
  rw [after, opening_apply]
  cases h : s.context.stack.push (s.context.frameFor name (G name)) with
  | ok stack => exact .single (.opened name h)
  | error e => exact .refl

theorem closing : Follows G L closing := by
  intro s
  rw [after, closing_apply]
  cases h : s.context.stack.pop with
  | ok popped => exact .single (.closed h)
  | error d => exact .refl

theorem advance : Follows G L advance := by
  intro s
  rw [after, advance_apply]
  cases h : s.context.atEnd with
  | true => exact .refl
  | false => exact .single (.advanced h)

theorem resolve : Follows G L resolve := by
  intro s
  have rounds : Moves G L s { s with context := s.context.resolve.1 } := .of_resolveRounds _ s
  rw [after, resolve_apply]
  cases s.context.resolve.2 <;> exact rounds

theorem configure (escapes expressions : Option Bool) :
    Follows G L (configure escapes expressions) :=
  frame.bind fun _ _ => .single (.configured escapes expressions)

theorem notFinished (delimiter : Text) : Follows G L (notFinished delimiter) :=
  frame.bind fun _ => complain _

/-! ### Actions -/

section

variable {run : Action σ → Machine σ τ Unit} (hrun : ∀ a, Follows G L (run a))
include hrun

theorem enterBy (name : σ) : Follows G L (enterBy G L run name) := by
  rw [enterBy_eq]
  exact (opening name).bind fun _ => (tell _).bind fun _ => hrun _

theorem returnBy : Follows G L (returnBy G run) := by
  refine read fun c => ?_
  cases c.frame? with
  | none => exact .pure _
  | some below => exact hrun _

theorem closeBy : Follows G L (closeBy G L run) :=
  frame.bind fun _ => (tell _).bind fun _ => closing.bind fun _ => returnBy hrun

theorem leaveBy : Follows G L (leaveBy G L run) := by
  rw [leaveBy_eq]
  refine read fun c => ?_
  cases c.frame? with
  | none => exact .throw _
  | some first => exact (hrun _).bind fun _ => (closeBy hrun).bind fun _ => .pure _

theorem dispatchBy : Follows G L (dispatchBy G run) :=
  frame.bind fun _ => read fun _ => hrun _

theorem perform (action : Action σ) : Follows G L (perform G L run action) := by
  have leaving : Follows G L (Functor.discard (Machine.leaveBy G L run)) :=
    discard (leaveBy hrun)
  cases action with
  | skip => exact .pure _
  | content => exact tell _
  | leave => exact leaving
  | contentAndLeave => exact (tell _).bind fun _ => leaving
  | dispatch => exact dispatchBy hrun
  | undefined => exact .throw _
  | enter state => exact enterBy hrun state
  | escape state =>
    refine read fun c => ?_
    split
    · exact enterBy hrun state
    · exact tell _
  | chain actions => exact forM hrun actions
  | notFinished delimiter => exact notFinished delimiter
  | configure escapes expressions => exact configure escapes expressions
  | besideSeparator following preceding otherwise =>
    refine read fun c => ?_
    split
    · exact .pure _
    · exact hrun otherwise
  | leaveOnGap =>
    refine read fun c => ?_
    split
    · exact leaving
    · exact .pure _
  | leaveOn characters =>
    refine read fun c => ?_
    split
    · exact leaving
    · exact .pure _
  | enterUnlessEnd state =>
    refine read fun c => ?_
    split
    · exact .pure _
    · exact enterBy hrun state
  | startValue state =>
    refine place.bind fun p => ?_
    split
    · exact enterBy hrun state
    · exact tell _
  | startBraces object bytes =>
    refine place.bind fun p => ?_
    split
    · exact enterBy hrun object
    · split
      · exact enterBy hrun bytes
      · exact tell _
  | endItem => exact place.bind fun _ => tell _
  | endName =>
    refine place.bind fun p => (tell _).bind fun _ => ?_
    split
    · exact .pure _
    · exact tell _

end

theorem actUpTo (limit : Nat) (action : Action σ) : Follows G L (actUpTo G L limit action) := by
  induction limit generalizing action with
  | zero => exact .throw _
  | succ limit ih => exact perform ih action

theorem act (action : Action σ) : Follows G L (act G L action) := actUpTo _ action

theorem enter (name : σ) : Follows G L (enter G L name) := enterBy act name

theorem leave : Follows G L (leave G L) := leaveBy act

theorem dispatch : Follows G L (dispatch G L) := dispatchBy act

theorem endState : Follows G L (endState G L) := frame.bind fun _ => act _

/-! ### Whole runs -/

theorem prepare : Follows G L prepare := by
  refine read fun c => ?_
  split
  · exact resolve
  · exact .pure _

theorem handle : Follows G L (handle G L) := dispatch.bind fun _ => advance

theorem step : Follows G L (step G L) := by
  rw [step_eq]
  refine prepare.bind fun _ => read fun c => ?_
  split
  · exact .pure _
  · exact handle

theorem walk (limit : Nat) : Follows G L (walk G L limit) := by
  induction limit with
  | zero =>
    refine read fun c => ?_
    split
    · exact .pure _
    · exact .throw _
  | succ limit ih =>
    refine read fun c => ?_
    split
    · exact .pure _
    · exact step.bind fun _ => ih

theorem unwind (limit : Nat) : Follows G L (unwind G L limit) := by
  induction limit with
  | zero =>
    refine read fun c => ?_
    split
    · exact .throw _
    · exact .pure _
  | succ limit ih =>
    refine read fun c => ?_
    split
    · refine endState.bind fun _ => read fun d => ?_
      split
      · exact leave.discard.bind fun _ => ih
      · exact ih
    · exact .pure _

theorem finish : Follows G L (finish G L) := by
  refine read fun c => (unwind _).bind fun _ => read fun d => ?_
  have last : Follows G L (do
      if 0 < (← Machine.context).stack.depth then Functor.discard (Machine.leave G L)) := by
    refine read fun e => ?_
    split
    · exact leave.discard
    · exact .pure _
  split
  · exact endState.bind fun _ => last
  · exact last

theorem readFrom (initial : σ) (limit : Nat) : Follows G L (readFrom G L initial limit) :=
  (enter initial).bind fun _ => (walk limit).bind fun _ => finish

end Follows
end Machine
end CommandLine
