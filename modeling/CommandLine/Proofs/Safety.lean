/-
# `CommandLine.Proofs.Safety` — the grammars are safe on every line

A run of one of the grammars with a steady listener goes through or ends with an error about the
line, and no promise of the machine is broken on the way.  One failure that is not about the line is
left: the defaults of an expression can stand in one another deeper than there is room for
(`Context.NestsTooDeep`).

    step      keeps the active states nested, and the cursor moves on        (`ends_step`)
    walk      ends at the end of the line, or has read its limit             (`ends_walk`)
    unwind    leaves one state in each round, so its limit is out of reach   (`Governs.unwind`)
    finish    leaves the state at the bottom as well                         (`Governs.finish`)

What the walk and its end need of a listener is that it attends the run (`Listener.Attends`): a
record is kept from the start on, and something is true of it however the run ends.  For what is
true of the session as a whole there is `Machine.Carries`.

A run that goes through has left every state that it entered, so its trace is a balanced word.
Without substitution the line never grows, so the limit of `walk` is out of reach, too.
-/
import CommandLine.Command.Read
import CommandLine.Proofs.Moves
import CommandLine.Proofs.Records
import CommandLine.Value.Read

namespace CommandLine

section

variable {τ : Type} {L : Listener StateName τ} {b : StateName} {names : Bool}
  {guard : Signal StateName → List StateName → Prop} {J : List StateName → τ → Prop}
  {E : τ → Prop} {f : Footing} {location : Nat} {active : List StateName}
  {s : Session StateName τ}

namespace Machine

theorem depth_of_active {c : Context StateName} (h : c.active = active) :
    c.stack.depth = active.length := by
  rw [← h, Context.active, List.length_map]
  rfl

/-! ## The end of the line -/

namespace Governs

variable {reads : List StateName → Prop} {K : List StateName → Session StateName τ → Prop}
  {F : Fault → Session StateName τ → Prop}
  (governs : Governs grammar L { guard := guard, reads := reads } none K F)
include governs

theorem endState_same (h : Nested b active) (hs : K active s) :
    Reaches K F (· = active) (Machine.endState grammar L) s := by
  cases active with
  | nil => exact absurd rfl h.ne_nil
  | cons x outer => exact governs.endState (secure_onEnd rfl) hs

variable (hleaves : ∀ {x outer}, Nested b (x :: outer) → guard (.leaving x) (x :: outer))
include hleaves

/-- Each round of unwinding leaves at least one state. -/
theorem unwind (limit : Nat) (h : Nested b active) (hlimit : active.length ≤ limit + 1)
    (hs : K active s) :
    Reaches K F (fun inner => Nested b inner ∧ inner.length = 1)
      (Machine.unwind grammar L limit) s := by
  have releases : Releases b true none guard :=
    ⟨fun _ _ _ hx => hleaves hx, fun hd => by cases hd⟩
  induction limit generalizing active s with
  | zero =>
    have hone : active.length = 1 :=
      Nat.le_antisymm hlimit (List.length_pos_iff.2 h.ne_nil)
    refine .read ?_
    rw [depth_of_active (governs.active_eq hs), hone]
    exact .pure ⟨active, ⟨h, hone⟩, hs⟩
  | succ limit ih =>
    refine .read ?_
    rw [depth_of_active (governs.active_eq hs)]
    split
    · next hdeep =>
      refine Ends.bind (governs.endState_same h hs) fun _ t ht => ?_
      obtain ⟨_, rfl, ht⟩ := ht
      refine .read ?_
      rw [depth_of_active (governs.active_eq ht), if_pos hdeep]
      cases h with
      | bottom root => exact absurd hdeep (Nat.lt_irrefl 1)
      | @inside x y outer held rest =>
        have hleave := governs.leave
          (Q := fun inner => Nested b inner ∧ inner.length ≤ outer.length + 1)
          (secure_leave_end releases (hleaves (.inside held rest)) (.inside held rest)
            fun inner hinner hlength => ⟨hinner, hlength⟩) ht
        refine Ends.bind (Ends.discard hleave) fun _ u hu => ?_
        obtain ⟨inner, ⟨hinner, hlength⟩, hu⟩ := hu
        rw [List.length_cons, List.length_cons] at hlimit
        exact ih hinner (by omega) hu
    · next hshallow =>
      have hone : active.length = 1 :=
        Nat.le_antisymm (Nat.le_of_not_lt hshallow) (List.length_pos_iff.2 h.ne_nil)
      exact .pure ⟨active, ⟨h, hone⟩, hs⟩

/-- At the end of the line all states are left. -/
theorem finish (h : Nested b active) (hs : K active s) :
    Reaches K F (· = []) (Machine.finish grammar L) s := by
  refine .read ?_
  have hlimit : active.length ≤ unwindLimit s.context.settings s.context.stack.depth + 1 := by
    rw [unwindLimit, depth_of_active (governs.active_eq hs)]
    omega
  refine Ends.bind (governs.unwind hleaves _ h hlimit hs) fun _ t ht => ?_
  obtain ⟨inner, ⟨hinner, hone⟩, ht⟩ := ht
  refine .read ?_
  rw [depth_of_active (governs.active_eq ht), hone]
  refine Ends.bind (governs.endState_same hinner ht) fun _ u hu => ?_
  obtain ⟨_, rfl, hu⟩ := hu
  refine .read ?_
  rw [depth_of_active (governs.active_eq hu), hone]
  cases hinner with
  | bottom root =>
    exact Ends.discard (governs.leave (secure_leave_bottom (hleaves (.bottom root)) rfl) hu)
  | inside held rest => exact absurd hone (by simp)

end Governs

theorem Settles.finish (steady : L.Steady guard (ReadsItems b) (f.character? location) J E)
    (hend : f.character? location = none)
    (hleaves : ∀ {x outer}, Nested b (x :: outer) → guard (.leaving x) (x :: outer))
    (h : Nested b active) (hs : s.Stands J f location active) :
    Settles J E f location (· = []) (Machine.finish grammar L) s := by
  have governs := governs_of_steady (G := grammar) steady
  rw [hend] at governs
  exact governs.finish hleaves h hs

end Machine

/-! ## Listeners of a whole run -/

/-- In a run that starts in the state, with nothing gathered but the initial record, the listener
keeps `J` from the start on, on every character and when all states are left at the end of the
line, and `E` if the run ends early. -/
structure Listener.Attends (L : Listener StateName τ) (b : StateName) (initial : τ)
    (J : List StateName → τ → Prop) (E : τ → Prop) : Prop where
  enter : ∀ {f location s}, s.Stands (fun _ gathered => gathered = initial) f location [] →
    Machine.Settles J E f location (· = [b]) (Machine.enter grammar L b) s
  dispatch : ∀ {f location d active s}, f.character? location = some d → Nested b active →
    s.Stands J f location active →
      Machine.Settles J E f location (Nested b) (Machine.dispatch grammar L) s
  finish : ∀ {f location active s}, f.character? location = none → Nested b active →
    s.Stands J f location active →
      Machine.Settles J E f location (· = []) (Machine.finish grammar L) s
  sound : ∀ {active g}, J active g → E g

/-- A listener that keeps step with nested states attends every run. -/
theorem Listener.SteadyIn.attends {initial : τ} (steady : L.SteadyIn b J)
    (hroot : b.isRoot = true) (hkept : J [] initial) : L.Attends b initial J fun _ => True where
  enter hs := Machine.Settles.enter (steady _) (secure_enter_root hroot (.bottom hroot) rfl)
    ⟨hs.footing_eq, hs.location_eq, hs.active_eq, hs.kept ▸ hkept⟩
  dispatch hd h hs := Machine.Settles.dispatch (steady _)
    (hd ▸ secure_dispatch guides_nested h (fun _ _ _ => rfl) (fun _ _ _ => rfl) fun _ hinner => hinner) hs
  finish hend h hs := Machine.Settles.finish (steady _) hend (fun h => h) h hs
  sound _ := trivial

namespace Machine

/-! ## The walk along the line -/

/-- The active states are nested, and the listener keeps step with them. -/
structure Tracks (J : List StateName → τ → Prop) (b : StateName) (strict : Bool)
    (s : Session StateName τ) : Prop where
  strict_eq : s.context.strict = strict
  nested : Nested b s.context.active
  kept : J s.context.active s.gathered

/-- How reading a character may end a run: with an error about the line, or for want of room at the
cursor. -/
def Interrupts (strict : Bool) (fault : Fault) (s : Session StateName τ) : Prop :=
  fault.AboutLine strict ∨ fault = .defect .nestedTooDeep ∧ s.context.NestsTooDeep

/-- How a run may end early: as reading a character may end it, or because it has read `limit`
characters and the line goes on. -/
def Stops (strict : Bool) (limit : Nat) (fault : Fault) (s : Session StateName τ) : Prop :=
  Interrupts strict fault s ∨
    fault = .endless ∧ s.context.atEnd = false ∧ s.context.location = limit

/-- The run ends early as it may, and `E` holds of what has been gathered. -/
def Halts (E : τ → Prop) (strict : Bool) (limit : Nat) (fault : Fault)
    (s : Session StateName τ) : Prop :=
  Stops strict limit fault s ∧ E s.gathered

/-- Reading a character ends the run as it may, and `E` holds of what has been gathered. -/
def Lapses (E : τ → Prop) (strict : Bool) (fault : Fault) (s : Session StateName τ) : Prop :=
  Interrupts strict fault s ∧ E s.gathered

section

variable {strict : Bool} {limit : Nat} {fault : Fault}

theorem Lapses.of_fails (h : Fails E strict fault s) : Lapses E strict fault s := ⟨.inl h.1, h.2⟩

theorem Halts.of_lapses (h : Lapses E strict fault s) : Halts E strict limit fault s :=
  ⟨.inl h.1, h.2⟩

theorem Halts.of_fails (h : Fails E strict fault s) : Halts E strict limit fault s :=
  .of_lapses (.of_fails h)

/-- What resolving fails with ends the run as reading a character may. -/
theorem Interrupts.of_refuses (h : s.context.Refuses fault) (hstrict : s.context.strict = strict) :
    Interrupts strict fault s := by
  cases h with
  | unresolved hs hunresolved =>
    refine .inl (.format (FormatError.isWrapper_of_isUnresolved hunresolved) fun hlenient => ?_)
    rw [← hstrict, hs] at hlenient
    cases hlenient
  | tooDeep hdeep => exact .inr ⟨rfl, hdeep⟩

end

theorem Tracks.stands {strict : Bool} (h : Tracks J b strict s) :
    s.Stands J s.context.footing s.context.location s.context.active := ⟨rfl, rfl, rfl, h.kept⟩

theorem Tracks.of_settles {strict : Bool} {t : Session StateName τ}
    (h : Tracks J b strict s)
    (ht : t.Settles J s.context.footing s.context.location (Nested b)) :
    Tracks J b strict t ∧ t.context.location = s.context.location ∧
      t.context.atEnd = s.context.atEnd := by
  obtain ⟨inner, hinner, ht⟩ := ht
  obtain ⟨hfooting, hlocation, hactive, hkept⟩ := ht
  subst hactive
  refine ⟨⟨?_, hinner, hkept⟩, hlocation, ?_⟩
  · exact (congrArg Footing.strict hfooting).trans h.strict_eq
  · have hinput : t.context.input = s.context.input :=
      congrArg (fun f => f.line.substituted) hfooting
    rw [Context.atEnd, hinput, hlocation]
    rfl

variable {initial : τ} (attends : L.Attends b initial J E)
include attends

/-- Substitution leaves the active states and the cursor alone. -/
theorem ends_resolve {strict : Bool} (h : Tracks J b strict s) :
    Ends (Lapses E strict)
      (fun _ t => Tracks J b strict t ∧ t.context.location = s.context.location) resolve s := by
  have hresolve := resolve_apply s
  have hstack : s.context.resolve.1.stack = s.context.stack := Context.stack_resolveRounds _ _
  have hlocation : s.context.resolve.1.location = s.context.location :=
    Context.location_resolveRounds _ _
  have hactive : s.context.resolve.1.active = s.context.active := by
    rw [Context.active, hstack]
    rfl
  cases he : s.context.resolve.2 with
  | none =>
    rw [he] at hresolve
    refine .of_ok hresolve ⟨⟨?_, ?_, ?_⟩, hlocation⟩
    · exact (Context.strict_resolveRounds _).trans h.strict_eq
    · show Nested b s.context.resolve.1.active
      rw [hactive]
      exact h.nested
    · show J s.context.resolve.1.active s.gathered
      rw [hactive]
      exact h.kept
  | some fault =>
    rw [he] at hresolve
    refine .of_error hresolve ⟨.of_refuses (Context.refuses_of_resolve he) ?_,
      attends.sound h.kept⟩
    exact (Context.strict_resolveRounds _).trans h.strict_eq

theorem ends_prepare {strict : Bool} (h : Tracks J b strict s) :
    Ends (Lapses E strict)
      (fun _ t => Tracks J b strict t ∧ t.context.location = s.context.location) prepare s := by
  refine .read ?_
  split
  · exact ends_resolve attends h
  · exact .pure ⟨h, rfl⟩

/-- A character is handled and the cursor moves on. -/
theorem ends_handle {strict : Bool} (h : Tracks J b strict s)
    (hinside : s.context.atEnd = false) :
    Ends (Fails E strict)
      (fun _ t => Tracks J b strict t ∧ t.context.location = s.context.location + 1)
      (handle grammar L) s := by
  obtain ⟨d, hd⟩ : ∃ d, s.context.footing.character? s.context.location = some d := by
    rw [Context.atEnd_eq_isNone, Option.isNone_eq_false_iff, Option.isSome_iff_exists] at hinside
    exact hinside
  have hdispatch := attends.dispatch hd h.nested h.stands
  obtain rfl := h.strict_eq
  refine Ends.bind hdispatch fun _ t ht => ?_
  obtain ⟨htracks, hlocation, hend⟩ := h.of_settles ht
  have hadvance := advance_apply t
  rw [hend, hinside] at hadvance
  refine .of_ok hadvance ⟨⟨htracks.strict_eq, htracks.nested, htracks.kept⟩, ?_⟩
  exact congrArg (· + 1) hlocation

/-- A step reads a character, unless substitution has left none. -/
theorem ends_step {strict : Bool} (h : Tracks J b strict s) :
    Ends (Lapses E strict)
      (fun _ t => Tracks J b strict t ∧
        (t.context.atEnd = true ∨ t.context.location = s.context.location + 1))
      (step grammar L) s := by
  rw [step_eq]
  refine (ends_prepare attends h).bind fun _ t ht => .read ?_
  obtain ⟨ht, hlocation⟩ := ht
  cases hend : t.context.atEnd with
  | true => exact .pure ⟨ht, .inl hend⟩
  | false =>
    refine (ends_handle attends ht hend).mono (fun _ _ => .of_fails) fun _ u hu => ?_
    exact ⟨hu.1, .inr (hu.2.trans (congrArg (· + 1) hlocation))⟩

/-- The walk ends at the end of the line unless it has read its limit. -/
theorem ends_walk {strict : Bool} {limit : Nat} (remaining : Nat) (h : Tracks J b strict s)
    (hlimit : s.context.atEnd = true ∨ s.context.location + remaining = limit) :
    Ends (Halts E strict limit) (fun _ t => Tracks J b strict t ∧ t.context.atEnd = true)
      (walk grammar L remaining) s := by
  induction remaining generalizing s with
  | zero =>
    refine .read ?_
    cases hend : s.context.atEnd with
    | true => exact .pure ⟨h, hend⟩
    | false =>
      rw [hend] at hlimit
      rcases hlimit with hlimit | hlimit
      · cases hlimit
      · exact .of_error rfl ⟨.inr ⟨rfl, hend, hlimit⟩, attends.sound h.kept⟩
  | succ remaining ih =>
    refine .read ?_
    cases hend : s.context.atEnd with
    | true => exact .pure ⟨h, hend⟩
    | false =>
      rw [hend] at hlimit
      have hstep := (ends_step attends h).mono (E := Halts E strict limit)
        (fun _ _ => .of_lapses) fun _ _ hQ => hQ
      refine hstep.bind fun _ t ht => ih ht.1 ?_
      rcases hlimit with hlimit | hlimit
      · cases hlimit
      · rcases ht.2 with hend' | hlocation
        · exact .inl hend'
        · exact .inr (by omega)

/-- Entering the state at the bottom. -/
theorem ends_enter {strict : Bool} (hroot : b.isRoot = true) (hstart : s.context.active = [])
    (hinitial : s.gathered = initial) (hstrict : s.context.strict = strict) :
    Ends (Fails E strict)
      (fun _ t => Tracks J b strict t ∧ t.context.location = s.context.location)
      (enter grammar L b) s := by
  have henter := attends.enter ⟨rfl, rfl, hstart, hinitial⟩
  subst hstrict
  refine henter.mono (fun _ _ hF => hF) fun _ t ht => ?_
  obtain ⟨_, rfl, ht⟩ := ht
  exact ⟨⟨congrArg Footing.strict ht.footing_eq, ht.active_eq ▸ .bottom hroot,
    ht.active_eq ▸ ht.kept⟩, ht.location_eq⟩

/-- A run goes through with every state left, or stops as it may. -/
theorem ends_readFrom {strict : Bool} (limit : Nat) (hroot : b.isRoot = true)
    (hstart : s.context.active = []) (hinitial : s.gathered = initial)
    (hstrict : s.context.strict = strict) (hlocation : s.context.location = 0) :
    Ends (Halts E strict limit) (fun _ t => t.context.active = [] ∧ J [] t.gathered)
      (readFrom grammar L b limit) s := by
  have henter := (ends_enter attends hroot hstart hinitial hstrict).mono
    (E := Halts E strict limit) (fun _ _ => .of_fails) fun _ _ hQ => hQ
  refine henter.bind fun _ t ht => ?_
  obtain ⟨htracks, htlocation⟩ := ht
  refine (ends_walk attends limit htracks (.inr ?_)).bind fun _ u hu => ?_
  · rw [htlocation, hlocation, Nat.zero_add]
  · obtain ⟨hu, hend⟩ := hu
    rw [Context.atEnd_eq_isNone, Option.isNone_iff_eq_none] at hend
    have hnone : u.context.footing.character? u.context.location = none := hend
    have hfinish := attends.finish hnone hu.nested hu.stands
    rw [← hu.strict_eq]
    refine hfinish.mono (fun _ _ => .of_fails) fun _ v hv => ?_
    obtain ⟨_, rfl, hv⟩ := hv
    exact ⟨hv.active_eq, hv.kept⟩

end Machine
end

/-! ## What a run carries along -/

namespace Machine

variable {σ τ : Type} {G : Graph σ} {L : Listener σ τ} {P D : Session σ τ → Prop}
  {F : Fault → Session σ τ → Prop} {s : Session σ τ}

/-- Before each character `P` holds, and at the end of the line the run ends with `D`; or it fails
as `F` says. -/
structure Carries (G : Graph σ) (L : Listener σ τ) (P : Session σ τ → Prop)
    (F : Fault → Session σ τ → Prop) (D : Session σ τ → Prop) : Prop where
  prepares : ∀ {s}, P s → Ends F (fun _ => P) prepare s
  handles : ∀ {s}, P s → s.context.atEnd = false → Ends F (fun _ => P) (handle G L) s
  endless : ∀ {s}, P s → s.context.atEnd = false → F .endless s
  finishes : ∀ {s}, P s → s.context.atEnd = true → Ends F (fun _ => D) (finish G L) s

namespace Carries

variable (carries : Carries G L P F D)
include carries

theorem walk (limit : Nat) (hs : P s) :
    Ends F (fun _ t => P t ∧ t.context.atEnd = true) (Machine.walk G L limit) s := by
  induction limit generalizing s with
  | zero =>
    refine .read ?_
    cases hend : s.context.atEnd with
    | true => exact .pure ⟨hs, hend⟩
    | false => exact .of_error rfl (carries.endless hs hend)
  | succ limit ih =>
    refine .read ?_
    cases hend : s.context.atEnd with
    | true => exact .pure ⟨hs, hend⟩
    | false =>
      rw [step_eq]
      refine Ends.bind (R := fun _ => P) ?_ fun _ t ht => ih ht
      refine (carries.prepares hs).bind fun _ t ht => .read ?_
      cases hinside : t.context.atEnd with
      | true => exact .pure ht
      | false => exact carries.handles ht hinside

/-- What the initial state is entered with is carried to the end of the line. -/
theorem readFrom {initial : σ} (limit : Nat)
    (henter : Ends F (fun _ => P) (Machine.enter G L initial) s) :
    Ends F (fun _ => D) (Machine.readFrom G L initial limit) s :=
  henter.bind fun _ _ ht => (carries.walk limit ht).bind fun _ _ hu =>
    carries.finishes hu.1 hu.2

end Carries
end Machine

/-! ## Runs without substitution -/

section

variable {σ τ : Type} {G : Graph σ} {L : Listener σ τ} {s t : Session σ τ}

theorem Move.line_of_plain (h : Move G L s t) (hplain : s.context.settings.substitutes = false) :
    t.context.line = s.context.line := by
  cases h with
  | opened name room => rw [Context.markValue_eq]
  | closed popped => rw [Context.unlockValue_eq]
  | substituted found =>
    rw [Context.resolveHere_of_plain hplain] at found
    cases found
  | _ => rfl

theorem Moves.line_of_plain (h : Moves G L s t)
    (hplain : s.context.settings.substitutes = false) : t.context.line = s.context.line := by
  refine (h.induct (P := fun u => u.context.settings = s.context.settings ∧
    u.context.line = s.context.line) (fun m hu => ?_) ⟨rfl, rfl⟩).2
  exact ⟨m.settings_eq.trans hu.1, (m.line_of_plain (hu.1 ▸ hplain)).trans hu.2⟩

/-- Without substitution a run stays on its footing. -/
theorem Moves.footing_of_plain (h : Moves G L s t)
    (hplain : s.context.settings.substitutes = false) : t.context.footing = s.context.footing := by
  show Footing.mk _ _ _ = Footing.mk _ _ _
  rw [h.settings_eq, h.strict_eq, h.line_of_plain hplain]

end

/-! ## Outcomes -/

/-- The fault of an outcome, if there is one, is as it may be. -/
def Allows {α : Type} (P : Fault → Prop) : Except Fault α → Prop
  | .ok _ => True
  | .error fault => P fault

theorem Allows.mono {α : Type} {P Q : Fault → Prop} {outcome : Except Fault α}
    (h : Allows P outcome) (hPQ : ∀ fault, P fault → Q fault) : Allows Q outcome := by
  cases outcome with
  | ok a => exact trivial
  | error fault => exact hPQ fault h

/-- A walk may read more characters than were typed. -/
theorem length_le_positionLimit (settings : Settings) (text : Text) :
    text.length ≤ positionLimit settings text := by
  rw [positionLimit, Nat.mul_add, Nat.mul_one]
  omega

/-- What a fault can be for a caller who asked for the line: an error about the line; where
expressions are resolved, the failure to read it because their defaults stand in one another too
deep; or a run that never ends where replacements can hold further variables. -/
inductive Settings.Permits (settings : Settings) (strict : Bool) (text : Text) : Fault → Prop
  | line {fault : Fault} (h : fault.AboutLine strict) : Permits settings strict text fault
  | room (h : settings.resolvesExpressions = true) :
    Permits settings strict text (.format (.notParsed text .nestedTooDeep))
  | length (h : settings.substitutes = true) : Permits settings strict text .endless

/-- How a run with a trace should end: with every state left that was entered, or as it may stop
early. -/
def SafeEnd {τ : Type} (strict : Bool) (limit : Nat) :
    EStateM.Result Fault (Session StateName (Array (Entry StateName) × τ)) Unit → Prop
  | .ok _ s => Signal.Balanced (Listener.signals s.gathered.1) ∧ s.context.stack.frames = []
  | .error fault s => Machine.Stops strict limit fault s

section

variable {τ : Type} {L : Listener StateName τ} {b : StateName}
  {J : List StateName → τ → Prop} (steady : L.SteadyIn b J)
  (hroot : b.isRoot = true) (settings : Settings) (strict : Bool) (text : Text) (gathered : τ)
  (hkept : J [] gathered)
include steady hroot hkept

open Machine Listener

theorem safeEnd_recording (limit : Nat) :
    SafeEnd strict limit (readFrom grammar (recording L) b limit
      (Session.start settings strict text (#[], gathered))) := by
  have h := ends_readFrom (s := Session.start settings strict text (#[], gathered))
    (steady.recording.attends hroot ⟨rfl, hkept⟩) limit hroot rfl rfl rfl rfl
  unfold Ends at h
  cases hr : readFrom grammar (recording L) b limit
      (Session.start settings strict text (#[], gathered)) with
  | ok a t =>
    rw [hr] at h
    exact ⟨h.2.1, List.map_eq_nil_iff.1 h.1⟩
  | error fault t =>
    rw [hr] at h
    exact h.1

/-- The run ends as it may, and it is endless only if the line has grown beyond the limit. -/
theorem allows_readText_of_limit :
    Allows (fun fault => settings.Permits strict text fault ∧ (fault = .endless →
        ∃ t, Moves grammar L (Session.start settings strict text gathered) t ∧
          positionLimit settings text < t.context.input.length))
      (grammar.readText settings strict L b text gathered).2 := by
  have h := ends_readFrom (s := Session.start settings strict text gathered) (steady.attends hroot hkept)
    (positionLimit settings text) hroot rfl rfl rfl rfl
  have hmoves := Follows.readFrom (G := grammar) (L := L) b (positionLimit settings text)
    (Session.start settings strict text gathered)
  unfold Ends at h
  unfold Graph.readText
  cases hr : readFrom grammar L b (positionLimit settings text)
      (Session.start settings strict text gathered) with
  | ok a t => exact trivial
  | error fault t =>
    rw [hr] at h
    rw [after_of_error hr] at hmoves
    rcases h.1 with (hline | ⟨rfl, hdeep⟩) | ⟨rfl, hinside, hlocation⟩
    · cases hline with
      | format real grave => exact ⟨.line (.format real grave), nofun⟩
    · exact ⟨.room (congrArg Settings.resolvesExpressions hmoves.settings_eq ▸ hdeep.enabled), nofun⟩
    · rw [Context.atEnd, hlocation, decide_eq_false_iff_not] at hinside
      have hlong := Nat.lt_of_not_le hinside
      refine ⟨.length ?_, fun _ => ⟨t, hmoves, hlong⟩⟩
      cases hplain : settings.substitutes with
      | true => rfl
      | false =>
        -- without substitution the limit lies beyond the end of the line
        have hinput : t.context.input = text :=
          congrArg Line.substituted (hmoves.line_of_plain hplain)
        rw [hinput] at hlong
        exact absurd (length_le_positionLimit settings text) (Nat.not_le_of_lt hlong)

theorem allows_read (line : Option Text) :
    Allows (settings.Permits strict (line.getD []))
      (grammar.read settings strict L b line gathered).2 := by
  unfold Graph.read
  dsimp only
  split
  · exact trivial
  · exact (allows_readText_of_limit steady hroot settings strict _ gathered hkept).mono
      fun _ h => h.1

end

/-- Where nothing is replaced a run ends with an error about the line. -/
theorem Settings.Permits.aboutLine_of_plain {settings : Settings} {strict : Bool} {text : Text}
    {fault : Fault} (h : settings.Permits strict text fault) (hplain : settings.substitutes = false) :
    fault.AboutLine strict := by
  rw [Settings.substitutes, Bool.or_eq_false_iff] at hplain
  cases h with
  | line h => exact h
  | room hon => cases hplain.1.symm.trans hon
  | length hon =>
    rw [Settings.substitutes, hplain.1, hplain.2] at hon
    cases hon

/-! ## The grammars -/

theorem Entrance.isRoot_state (entrance : Entrance) : entrance.state.isRoot = true := by
  cases entrance <;> rfl

/-- No structured value is read from an entrance. -/
theorem Entrance.not_readsItems (entrance : Entrance) (active : List StateName) :
    ¬ ReadsItems entrance.state active := by
  intro h
  cases entrance <;> cases h.1

theorem Reader.steady_command (entrance : Entrance) :
    (Reader.listener Command.handler).SteadyIn entrance.state fun _ _ => True := fun _ =>
  Reader.steady_listener Command.isFair_handler entrance.not_readsItems

theorem TypedValue.steady_typed :
    TypedValue.listener.SteadyIn .typedStart fun _ _ => True := fun _ =>
  TypedValue.steady_listener fun _ h => nomatch h.1

theorem Value.Builder.steady_builder : listener.SteadyIn .value Levels := fun _ => steady_listener

theorem allows_readWith (settings : Settings) (strict : Bool) (entrance : Entrance)
    (line : Option Text) (reader : Reader) (c : Command) :
    Allows (settings.Permits strict (line.getD []))
      (readWith settings strict Command.handler entrance.state line reader c).2 := by
  have h := allows_read (Reader.steady_command entrance) entrance.isRoot_state settings strict
    (reader, c) trivial line
  unfold readWith
  cases hr : grammar.read settings strict (Reader.listener Command.handler) entrance.state line
      (reader, c) with
  | mk heard outcome =>
    rw [hr] at h
    cases outcome with
    | error fault => exact h
    | ok result => exact trivial

namespace Command

open Text

/-- What becomes of a run over a line. -/
def ofEnding (text : Text) :
    EStateM.Result Fault (Session StateName (Reader × Command)) Unit → Except Fault Command
  | .ok _ s => .ok (s.gathered.2.receive (.parsed s.context.result)).1
  | .error fault _ => .error (fault.forLine text)

theorem read_of_not_isBlankText {settings : Settings} {strict : Bool} {entrance : Entrance}
    {base : List Node} {text : Text} (hsolid : isBlankText text = false) :
    Command.read settings strict entrance base (some text) =
      ofEnding text (Machine.readFrom grammar (Reader.listener handler) entrance.state
        (positionLimit settings text) (.start settings strict text ({}, relativeTo base))) := by
  rw [Command.read, readLine, readWith, Graph.read_of_not_isBlankText hsolid, Graph.readText]
  cases Machine.readFrom grammar (Reader.listener handler) entrance.state
    (positionLimit settings text) (.start settings strict text ({}, relativeTo base)) <;> rfl

end Command

theorem Value.allows_read (strict : Bool) (line : Option Text) :
    Allows (fun fault => fault.AboutLine strict) (Value.read strict line) := by
  have h := CommandLine.allows_read Builder.steady_builder rfl {} strict {} rfl line
  unfold Value.read
  cases hr : grammar.read {} strict Builder.listener .value line {} with
  | mk builder outcome =>
    rw [hr] at h
    cases outcome with
    | error fault => exact h.aboutLine_of_plain rfl
    | ok result => exact trivial

theorem TypedValue.allows_read (line : Option Text) :
    Allows (fun fault => fault.AboutLine false) (TypedValue.read line) := by
  have h := CommandLine.allows_read TypedValue.steady_typed rfl {} false [] trivial line
  unfold TypedValue.read
  cases hr : grammar.read {} false TypedValue.listener .typedStart line [] with
  | mk content outcome =>
    rw [hr] at h
    cases outcome with
    | error fault => exact h.aboutLine_of_plain rfl
    | ok result => exact trivial

open Machine Listener in
/-- The grammars are safe on every line, with any settings, strictly and leniently: a run goes
through with all states left in the order in which they were entered, or ends with an error about
the line.  No missing state, no place outside the line and no missing container is ever met.  The
one failure that is not about the line comes up where expressions are resolved, and the defaults of
the one at the cursor stand in one another deeper than there is room for; values are read without
resolving any. -/
theorem grammars_safe (settings : Settings) (strict : Bool) :
    (∀ (entrance : Entrance) (reader : Reader) (c : Command),
      (∀ (text : Text) (limit : Nat), SafeEnd strict limit
        (readFrom grammar (recording (Reader.listener Command.handler)) entrance.state limit
          (Session.start settings strict text (#[], reader, c)))) ∧
      ∀ line : Option Text, Allows (settings.Permits strict (line.getD []))
        (readWith settings strict Command.handler entrance.state line reader c).2) ∧
    (∀ (text : Text) (limit : Nat), SafeEnd strict limit
      (readFrom grammar (recording Value.Builder.listener) .value limit
        (Session.start settings strict text (#[], {})))) ∧
    (∀ line : Option Text, Allows (fun fault => fault.AboutLine strict)
      (Value.read strict line)) ∧
    (∀ (text : Text) (limit : Nat), SafeEnd strict limit
      (readFrom grammar (recording TypedValue.listener) .typedStart limit
        (Session.start settings strict text (#[], [])))) ∧
    ∀ line : Option Text, Allows (fun fault => fault.AboutLine false) (TypedValue.read line) := by
  refine ⟨fun entrance reader c => ⟨fun text limit => ?_, fun line => ?_⟩, fun text limit => ?_,
    Value.allows_read strict, fun text limit => ?_, TypedValue.allows_read⟩
  · exact safeEnd_recording (Reader.steady_command entrance) entrance.isRoot_state settings strict
      text (reader, c) trivial limit
  · exact allows_readWith settings strict entrance line reader c
  · exact safeEnd_recording Value.Builder.steady_builder rfl settings strict text {} rfl limit
  · exact safeEnd_recording TypedValue.steady_typed rfl settings strict text [] trivial limit

/-! ### Defaults in one another -/

/-- The settings of a line in which expressions are resolved but nothing is defined. -/
def nothingDefined : Settings := { resolvesExpressions := true }

/-- The text `x` as the default of an expression, that as the default of another one, and so on. -/
def nestedDefaults : Nat → Text
  | 0 => ['x']
  | n + 1 => ['$', '{', 'a', ':'] ++ (nestedDefaults n ++ ['}'])

theorem nestedDefaults_succ (n : Nat) :
    nestedDefaults (n + 1) = '$' :: '{' :: 'a' :: ':' :: (nestedDefaults n ++ ['}']) := rfl

theorem closingBrace_nestedDefaults (n depth : Nat) (rest : Text) :
    closingBrace (depth + 1) (nestedDefaults n ++ rest) =
      (closingBrace (depth + 1) rest).map (· + (nestedDefaults n).length) := by
  induction n generalizing depth rest with
  | zero => rfl
  | succ n ih =>
    have hclose : closingBrace (depth + 2) ('}' :: rest) =
        (closingBrace (depth + 1) rest).map (· + 1) := rfl
    show ((((closingBrace (depth + 2) (nestedDefaults n ++ ['}'] ++ rest)).map (· + 1)).map
      (· + 1)).map (· + 1)).map (· + 1) = _
    rw [List.append_assoc, List.singleton_append, ih, hclose]
    simp only [Option.map_map, nestedDefaults, List.length_append, List.length_cons,
      List.length_nil]
    congr 1
    funext k
    simp only [Function.comp_apply]
    omega

theorem body?_nestedDefaults (n : Nat) :
    body? (nestedDefaults (n + 1)) = some ('a' :: ':' :: nestedDefaults n) := by
  have hclosing : closingBrace 1 ('a' :: ':' :: (nestedDefaults n ++ ['}'])) =
      some ('a' :: ':' :: nestedDefaults n).length := by
    show ((closingBrace 1 (nestedDefaults n ++ ['}'])).map (· + 1)).map (· + 1) = _
    rw [closingBrace_nestedDefaults]
    show some (0 + (nestedDefaults n).length + 1 + 1) = _
    rw [Nat.zero_add]
    rfl
  show (closingBrace 1 ('a' :: ':' :: (nestedDefaults n ++ ['}']))).map
    ('a' :: ':' :: (nestedDefaults n ++ ['}'])).take = _
  rw [hclosing, Option.map_some, ← List.cons_append, ← List.cons_append, List.take_left]

theorem drop_nestedDefaults (n : Nat) :
    (nestedDefaults (n + 1)).drop (expressionLength ('a' :: ':' :: nestedDefaults n)) = [] := by
  refine List.drop_eq_nil_of_le ?_
  simp only [nestedDefaults, expressionLength, List.length_append, List.length_cons,
    List.length_nil]
  omega

section

variable {r : Resolver} (hname : r.lookupFirst ['a'] = none) (n : Nat)
include hname

/-- What is nested stands for the innermost default. -/
theorem Resolver.resolveText_nestedDefaults (strict : Bool) (index : Int) :
    r.resolveText strict index (nestedDefaults n) = .ok (some ['x']) := by
  induction n generalizing index with
  | zero =>
    rw [nestedDefaults, resolveText_of_plain r strict index rfl, resolveText_nil]
    rfl
  | succ n ih =>
    have hvalue : r.valueOfBody strict ('a' :: ':' :: nestedDefaults n) = .ok (some ['x']) :=
      (valueOfBody_of_default hname rfl).trans (ih 0)
    have hbody := body?_nestedDefaults n
    rw [nestedDefaults_succ] at hbody ⊢
    rw [resolveText_of_expression r strict index rfl hbody, hvalue, ← nestedDefaults_succ]
    simp only [valueRequired, drop_nestedDefaults, resolveText_nil]
    rfl

theorem Resolver.bodyNesting_nestedDefaults :
    r.bodyNesting ('a' :: ':' :: nestedDefaults n) = r.textNesting (nestedDefaults n) + 1 :=
  bodyNesting_of_default r hname rfl

theorem Resolver.textNesting_nestedDefaults : r.textNesting (nestedDefaults n) = n := by
  induction n with
  | zero => rw [nestedDefaults, textNesting_of_plain r rfl, textNesting_nil]
  | succ n ih =>
    have hbody := body?_nestedDefaults n
    rw [nestedDefaults_succ] at hbody ⊢
    rw [textNesting_of_expression r rfl hbody, bodyNesting_nestedDefaults hname, ih,
      ← nestedDefaults_succ, drop_nestedDefaults, textNesting_nil]
    split <;> rfl

theorem Resolver.expressionNesting_nestedDefaults :
    r.expressionNesting (nestedDefaults (n + 1)) = n + 1 := by
  rw [expressionNesting_of_body? r (body?_nestedDefaults n), bodyNesting_nestedDefaults hname,
    textNesting_nestedDefaults hname]

end

section

open Machine Text

variable {fault : Fault} {text : Text}

/-- What stands at the start of a line of arguments is resolved before anything else. -/
theorem exists_run_of_resolveHere {η : Type} (handler : Handler η) (gathered : η) (hne : text ≠ [])
    (h : (Context.start nothingDefined true text : Context StateName).resolveHere =
      .error fault) :
    ∃ t, readFrom grammar (Reader.listener handler) .argumentList
        (positionLimit nothingDefined text)
        (.start nothingDefined true text ({}, gathered)) = .error fault t ∧
      t.context.input = text := by
  obtain ⟨d, rest, rfl⟩ := List.exists_cons_of_ne_nil hne
  obtain ⟨t, henter, hline, hhere, hinside, henabled⟩ : ∃ t,
      enter grammar (Reader.listener handler) .argumentList
          (.start nothingDefined true (d :: rest) ({}, gathered)) = .ok () t ∧
        t.context.input = d :: rest ∧
        t.context.resolveHere = (Context.start nothingDefined true (d :: rest) :
          Context StateName).resolveHere ∧
        t.context.atEnd = false ∧ t.context.expressionsEnabled = true :=
    ⟨_, rfl, rfl, rfl, rfl, rfl⟩
  have hresolve : t.context.resolve = (t.context, some fault) := by
    rw [Context.resolve, hline, List.length_cons]
    simp only [Context.resolveRounds, hhere, h]
  have hprepare : prepare t = .error fault t := by
    rw [prepare, context_bind_apply, henabled, if_pos rfl, resolve_apply, hresolve]
  have hstep : step grammar (Reader.listener handler) t = .error fault t := by
    rw [step_eq, bind_apply_of_error hprepare]
  have hwalk : walk grammar (Reader.listener handler) (positionLimit nothingDefined (d :: rest)) t =
      .error fault t := by
    obtain ⟨limit, hlimit⟩ := Nat.exists_eq_add_one_of_ne_zero (n := positionLimit nothingDefined
      (d :: rest)) (Nat.succ_ne_zero _)
    rw [hlimit, walk, context_bind_apply, hinside, if_neg Bool.false_ne_true,
      bind_apply_of_error hstep]
  exact ⟨t, by rw [readFrom, bind_apply_of_ok henter, bind_apply_of_error hwalk], hline⟩

/-- Too many defaults in one another are a failure to read the line that they are. -/
theorem read_nestedDefaults {n : Nat} (h : nothingDefined.resolver.nestingLimit ≤ n) :
    Command.read nothingDefined true .arguments [] (some (nestedDefaults (n + 1))) =
      .error (.format (.notParsed (nestedDefaults (n + 1)) .nestedTooDeep)) := by
  have hname : nothingDefined.resolver.lookupFirst ['a'] = none := by decide
  have hdeep : nothingDefined.resolver.nestingLimit <
      nothingDefined.resolver.expressionNesting (nestedDefaults (n + 1)) := by
    rw [Resolver.expressionNesting_nestedDefaults hname n]
    exact Nat.lt_succ_of_le h
  have hhere : (Context.start nothingDefined true (nestedDefaults (n + 1)) :
      Context StateName).resolveHere = .error (.defect .nestedTooDeep) :=
    Resolver.resolveWithin_of_lt hdeep
  have hne : nestedDefaults (n + 1) ≠ [] := List.cons_ne_nil _ _
  obtain ⟨t, hrun, -⟩ := exists_run_of_resolveHere Command.handler (.relativeTo []) hne hhere
  rw [Command.read_of_not_isBlankText rfl, Entrance.state, hrun]
  rfl

end

/-- A line of four hundred defaults in one another cannot be read, although with room enough it
stands for `x`. -/
theorem grammars_not_safe_of_nestedDefaults :
    nothingDefined.resolver.resolveText true 0 (nestedDefaults 400) = .ok (some ['x']) ∧
      Command.read nothingDefined true .arguments [] (some (nestedDefaults 400)) =
        .error (.format (.notParsed (nestedDefaults 400) .nestedTooDeep)) ∧
      ¬ Fault.AboutLine true (.format (.notParsed (nestedDefaults 400) .nestedTooDeep)) :=
  ⟨Resolver.resolveText_nestedDefaults rfl 400 true 0, read_nestedDefaults (n := 399) (by decide),
    fun h => nomatch h⟩

end CommandLine
