/-
# `CommandLine.Proofs.Roominess` — room for more states changes nothing that is read

The limit on the states that may be active at once is looked at in one place, where a frame is
pushed.  So a run that is not stopped there goes exactly the same way with a higher limit, and it
makes no difference either if the run may read more characters than before: the only other end it
can come to is that of its allowance (`readFrom_roomier`).

A context with more room differs from the original in the two places that hold the limit
(`Context.roomier`), and the bond of the two runs is that one session is the other one with more
room (`Bond.roomier`).
-/
import CommandLine.Proofs.Depth
import CommandLine.Proofs.Lockstep
import CommandLine.Proofs.Resolving

namespace CommandLine

open Machine Text

section

variable {σ τ : Type} {limit : Int}

/-- What is popped does not depend on the room. -/
theorem Stack.pop_maxDepth (s : Stack σ) : ({ s with maxDepth := limit } : Stack σ).pop =
    s.pop.map fun popped => (popped.1, { popped.2 with maxDepth := limit }) := by
  rcases s with ⟨_ | _, _⟩ <;> rfl

namespace Context

/-- The context with another limit on the states that may be active. -/
def roomier (limit : Int) (c : Context σ) : Context σ :=
  { c with settings := { c.settings with maxDepth := limit }
           stack := { c.stack with maxDepth := limit } }

theorem markValue_roomier (c : Context σ) (s : State σ) :
    (c.roomier limit).markValue s = (c.markValue s).roomier limit := by
  unfold markValue roomier
  split <;> rfl

theorem unlockValue_roomier (c : Context σ) :
    (c.roomier limit).unlockValue = c.unlockValue.roomier limit := by
  rcases c with ⟨_, _, _, _, stack, _, lockDepth, _⟩
  cases lockDepth with
  | none => rfl
  | some depth =>
    show (if stack.depth < depth then _ else _) =
      Context.roomier limit (if stack.depth < depth then _ else _)
    split <;> rfl

/-- What is replaced does not depend on the room for states. -/
theorem resolve_roomier (c : Context σ) :
    (c.roomier limit).resolve = (c.resolve.1.roomier limit, c.resolve.2) :=
  resolveRounds_map (f := roomier limit) (fun _ => rfl) (fun _ _ _ => rfl) c.input.length c

end Context

/-- The session with another limit on the states that may be active. -/
def Session.roomier (limit : Int) (s : Session σ τ) : Session σ τ :=
  { s with context := s.context.roomier limit }

/-- The listener does not ask how many states may be active. -/
def Listener.IgnoresRoom (L : Listener σ τ) : Prop :=
  ∀ (signal : Signal σ) (c : Context σ) (limit : Int) (gathered : τ),
    L.hear signal (c.roomier limit) gathered = L.hear signal c gathered

/-- The limit is no lower than the one that the context has. -/
def Context.Fits (limit : Int) (c : Context σ) : Prop :=
  c.settings.maxDepth ≤ limit ∧ c.stack.maxDepth ≤ limit

/-- The second session is the first one with more room; a run that finds the line nested too deep,
or uses up its allowance, is excused. -/
def Bond.roomier (limit : Int) : Bond σ τ τ where
  joins s t := s.context.Fits limit ∧ t = s.roomier limit
  fails e s f t := f = e ∧ t = s.roomier limit
  excuses e := e.isTooDeep = true ∨ e = .endless

/-- A state is entered as before, unless there was no room for it. -/
theorem opening_roomier (G : Graph σ) (x : σ) {s : Session σ τ} (h : s.context.Fits limit) :
    Paired (.roomier limit) (opening G x) s (opening G x) (s.roomier limit) := by
  have hs := opening_apply G x s
  have ht := opening_apply G x (s.roomier limit)
  cases hpush : s.context.stack.push (s.context.frameFor x (G x)) with
  | error e =>
    rw [hpush] at hs
    refine .of_excused hs (Or.inl ?_) _
    unfold Stack.push at hpush
    split at hpush
    · cases hpush
      rfl
    · cases hpush
  | ok stack =>
    have hroom : ¬ s.context.stack.maxDepth ≤ s.context.stack.depth := by
      intro hfull
      rw [Stack.push, if_pos hfull] at hpush
      cases hpush
    obtain rfl := Stack.eq_of_push hpush
    have hpush' : (s.roomier limit).context.stack.push
        ((s.roomier limit).context.frameFor x (G x)) =
          .ok { s.context.stack with
            frames := s.context.frameFor x (G x) :: s.context.stack.frames, maxDepth := limit } :=
      if_neg fun hfull => hroom (Int.le_trans h.2 hfull)
    rw [hpush] at hs
    rw [hpush'] at ht
    refine .of_ok hs ht ⟨?_, ?_⟩
    · rw [Context.markValue_eq]
      exact h
    · exact congrArg (Session.mk · s.gathered) (Context.markValue_roomier
        { s.context with stack := { s.context.stack with
            frames := s.context.frameFor x (G x) :: s.context.stack.frames } } _)

theorem closing_roomier {s : Session σ τ} (h : s.context.Fits limit) :
    Paired (.roomier limit) closing s closing (s.roomier limit) := by
  have hs := closing_apply s
  have ht := closing_apply (s.roomier limit)
  have hpop' : (s.roomier limit).context.stack.pop =
      s.context.stack.pop.map fun popped => (popped.1, { popped.2 with maxDepth := limit }) :=
    Stack.pop_maxDepth s.context.stack
  rw [hpop'] at ht
  cases hpop : s.context.stack.pop with
  | error d =>
    rw [hpop] at hs ht
    exact .of_error hs ht ⟨rfl, rfl⟩
  | ok popped =>
    obtain ⟨frame, stack⟩ := popped
    have hlimit : stack.maxDepth ≤ limit := by
      have h := h.2
      rwa [Stack.eq_of_pop hpop] at h
    rw [hpop] at hs ht
    refine .of_ok hs ht ⟨?_, ?_⟩
    · rw [Context.unlockValue_eq]
      exact ⟨h.1, hlimit⟩
    · exact congrArg (Session.mk · s.gathered)
        (Context.unlockValue_roomier { s.context with stack := stack })

theorem complain_roomier (e : FormatError) {s : Session σ τ} (h : s.context.Fits limit) :
    Paired (.roomier limit) (complain e) s (complain e) (s.roomier limit) :=
  .complain rfl ⟨rfl, rfl⟩ ⟨h, rfl⟩

theorem tell_roomier {L : Listener σ τ} (ignores : L.IgnoresRoom) (signal : Signal σ)
    {s : Session σ τ} (h : s.context.Fits limit) :
    Paired (.roomier limit) (tell L signal) s (tell L signal) (s.roomier limit) := by
  have hhear : L.hear signal (s.roomier limit).context (s.roomier limit).gathered =
      L.hear signal s.context s.gathered := ignores signal s.context limit s.gathered
  have hheard : heard L signal (s.roomier limit) = (heard L signal s).roomier limit := by
    unfold heard
    rw [hhear]
    rfl
  refine .tell (congrArg Reply.verdict hhear) ⟨h, hheard⟩ (fun _ => ⟨rfl, hheard⟩) fun e => ?_
  rw [hheard]
  exact complain_roomier e h

theorem prepare_roomier {s : Session σ τ} (h : s.context.Fits limit) :
    Paired (.roomier limit) prepare s prepare (s.roomier limit) := by
  have hresolve : (s.roomier limit).context.resolve =
      (s.context.resolve.1.roomier limit, s.context.resolve.2) := s.context.resolve_roomier
  have hsession : ({ s.roomier limit with context := (s.roomier limit).context.resolve.1 } :
      Session σ τ) = Session.roomier limit { s with context := s.context.resolve.1 } := by
    rw [hresolve]
    rfl
  have hfits : s.context.resolve.1.Fits limit := by
    rw [Context.resolve, Context.resolveRounds_eq]
    exact h
  refine .prepare rfl ?_ ⟨h, rfl⟩ ⟨hfits, hsession⟩ fun _ => ⟨rfl, hsession⟩
  rw [hresolve]

/-- The limit is looked at where a state is entered and nowhere else. -/
theorem holds_roomier (G : Graph σ) {L : Listener σ τ} (ignores : L.IgnoresRoom) :
    (Bond.roomier limit).Holds G L L fun _ => True where
  active := by
    rintro s _ ⟨-, rfl⟩
    rfl
  character? := by
    rintro s _ ⟨-, rfl⟩
    rfl
  escapes := by
    rintro s _ ⟨-, rfl⟩
    rfl
  looks := by
    rintro s _ following preceding ⟨-, rfl⟩
    rfl
  limits := by
    rintro s _ ⟨h, rfl⟩
    refine .inr ⟨?_, .inr rfl⟩
    have hdepth : s.context.settings.maxDepth.toNat ≤ limit.toNat := Int.toNat_le_toNat h.1
    exact Nat.add_le_add_right (Nat.add_le_add_left hdepth _) _
  throws := by
    rintro s _ e - ⟨-, rfl⟩
    exact ⟨rfl, rfl⟩
  places := by
    rintro s _ ⟨-, rfl⟩
    rfl
  tells := by
    rintro s _ signal ⟨h, rfl⟩
    exact tell_roomier ignores signal h
  opens := by
    rintro s _ x ⟨h, rfl⟩
    exact opening_roomier G x h
  closes := by
    rintro s _ ⟨h, rfl⟩
    exact closing_roomier h
  complains := by
    rintro s _ delimiter ⟨h, rfl⟩
    exact .notFinished rfl (fun e => complain_roomier e h) fun _ => ⟨rfl, rfl⟩
  configures := by
    rintro s _ escapes expressions - ⟨h, rfl⟩
    exact .configure rfl ⟨h, rfl⟩ fun _ => ⟨rfl, rfl⟩
  prepares := by
    rintro s _ ⟨h, rfl⟩
    exact prepare_roomier h
  advances := by
    rintro s _ ⟨h, rfl⟩
    exact .advance rfl ⟨h, rfl⟩ ⟨rfl, rfl⟩

/-- A run that is neither stopped by the limit nor used up goes the same way with a higher limit and
with more characters to read. -/
theorem readFrom_roomier (G : Graph σ) {L : Listener σ τ} (ignores : L.IgnoresRoom) (initial : σ)
    {positions positions' : Nat} (hpositions : positions ≤ positions') {settings : Settings}
    (hlimit : settings.maxDepth ≤ limit) (strict : Bool) (text : Text) (gathered : τ) :
    Paired (.roomier limit) (readFrom G L initial positions)
      (.start settings strict text gathered) (readFrom G L initial positions')
      (.start { settings with maxDepth := limit } strict text gathered) :=
  (holds_roomier G ignores).readFrom (.all G) initial (.inr ⟨hpositions, .inr rfl⟩)
    ⟨⟨hlimit, hlimit⟩, rfl⟩

end

/-! ## Command lines -/

/-- The line has not been found to be nested too deep. -/
def WithinDepth {α : Type} (outcome : Except Fault α) : Prop :=
  ∀ fault, outcome = .error fault → fault.isTooDeep = false

instance {α : Type} (outcome : Except Fault α) : Decidable (WithinDepth outcome) :=
  match outcome with
  | .ok _ => .isTrue nofun
  | .error fault =>
    if h : fault.isTooDeep = false then .isTrue fun _ hfault => Except.error.inj hfault ▸ h
    else .isFalse fun hdeep => h (hdeep fault rfl)

theorem Reader.ignoresRoom_listener {η : Type} (handler : Handler η) :
    (Reader.listener handler).IgnoresRoom := by
  intro signal c limit gathered
  have hsignal : Reading.signal (c.roomier limit) signal = Reading.signal c signal := by
    cases signal with
    | entered state => cases state <;> rfl
    | leaving state => cases state <;> rfl
    | _ => rfl
  simp only [listener, hear, hsignal]

namespace Command

variable {settings : Settings} {strict : Bool} {entrance : Entrance} {base : List Node}
  {limit : Int} {text : Text}

theorem allows_read (settings : Settings) (strict : Bool) (entrance : Entrance)
    (base : List Node) (line : Option Text) :
    Allows (settings.Permits strict (line.getD []))
      (Command.read settings strict entrance base line) := by
  have h := allows_readWith settings strict entrance line {} (relativeTo base)
  unfold Command.read readLine
  cases hr : readWith settings strict handler entrance.state line {} (relativeTo base) with
  | mk heard outcome =>
    rw [hr] at h
    cases outcome with
    | error fault => exact h
    | ok result => exact trivial

/-- What excuses a run does not come up on a line without substitution that keeps to the limit. -/
theorem not_excused (hplain : settings.substitutes = false) {fault : Fault}
    (hdeep : (fault.forLine text).isTooDeep = false)
    (hsafe : settings.Permits strict text (fault.forLine text)) :
    ¬ (fault.isTooDeep = true ∨ fault = .endless) := by
  rintro (h | rfl)
  · cases fault with
    | defect cause => cases h
    | _ => exact Bool.false_ne_true (hdeep.symm.trans h)
  · cases hsafe.aboutLine_of_plain hplain

/-- A line that is not nested too deep is what a run with more room and more characters to read
makes of it. -/
theorem read_eq_ofEnding (hplain : settings.substitutes = false)
    (hsolid : isBlankText text = false) (hlimit : settings.maxDepth ≤ limit) {positions : Nat}
    (hpositions : positionLimit settings text ≤ positions)
    (hdeep : WithinDepth (Command.read settings strict entrance base (some text))) :
    Command.read settings strict entrance base (some text) =
      ofEnding text (readFrom grammar (Reader.listener handler) entrance.state positions
        (.start { settings with maxDepth := limit } strict text ({}, relativeTo base))) := by
  have hsafe := allows_read settings strict entrance base (some text)
  have hpaired := readFrom_roomier grammar (Reader.ignoresRoom_listener handler) entrance.state
    hpositions hlimit strict text ({}, relativeTo base)
  rw [read_of_not_isBlankText hsolid] at hdeep hsafe ⊢
  unfold Paired at hpaired
  split at hpaired
  · next hrun hrun' =>
    obtain ⟨-, -, rfl⟩ := hpaired
    rw [hrun, hrun']
    rfl
  · next e s f t hrun hrun' =>
    obtain hexcused | ⟨rfl, rfl⟩ := hpaired
    · rw [hrun] at hdeep hsafe
      exact absurd hexcused (not_excused hplain (hdeep _ rfl) hsafe)
    · rw [hrun, hrun']
      rfl
  · next e s a t hrun hrun' =>
    rw [hrun] at hdeep hsafe
    exact absurd hpaired (not_excused hplain (hdeep _ rfl) hsafe)
  · exact hpaired.elim

/-- The limit on the active states makes no difference to a command that keeps within it: with a
higher one the line is read as before. -/
theorem read_roomier (hplain : settings.substitutes = false) (hlimit : settings.maxDepth ≤ limit)
    {line : Option Text}
    (hdeep : WithinDepth (Command.read settings strict entrance base line)) :
    Command.read { settings with maxDepth := limit } strict entrance base line =
      Command.read settings strict entrance base line := by
  cases hblank : isBlankText (line.getD []) with
  | true =>
    simp only [Command.read, readLine, readWith, Graph.read, hblank, if_pos]
  | false =>
    obtain ⟨text, rfl⟩ : ∃ text, line = some text := by
      cases line with
      | none => cases hblank
      | some text => exact ⟨text, rfl⟩
    have hsolid : isBlankText text = false := hblank
    rw [read_eq_ofEnding hplain hsolid hlimit (Nat.le_refl _) hdeep]
    exact read_of_not_isBlankText hsolid

end Command
end CommandLine
