/-
# `CommandLine.Proofs.Lockstep` — two runs that go step by step together

Two runs of one graph may differ in their listeners, their lines and their settings and yet do the
same.  A *bond* says what they have in common: which sessions correspond, and how the runs may end
early together; there may also be faults of the first run that excuse it from going on.

A bond *holds* for a graph and two listeners if corresponding sessions show the same states and the
same character, and if what the machine does to a session, one piece at a time, leads from
corresponding sessions to corresponding sessions.  From the pieces follows the whole run, by the
structure of the machine: what an action does by induction on how deep actions set each other off
(`Bond.Holds.actUpTo`), what a line does by induction on its characters (`Bond.Holds.walk`), and
with both of them `Bond.Holds.readFrom`.

    Paired B p s q t    p does to s what q does to t, as far as the bond B can tell
    B.Holds             the pieces are paired
    B.Allots            the second run may go on at least as long as the first one
-/
import CommandLine.Proofs.Tandem

namespace CommandLine

/-- What two runs have in common. -/
structure Bond (σ τ υ : Type) where
  /-- The sessions correspond. -/
  joins : Session σ τ → Session σ υ → Prop
  /-- The runs may end early together, each with its fault. -/
  fails : Fault → Session σ τ → Fault → Session σ υ → Prop
  /-- The first run may end early with this fault, whatever becomes of the second one. -/
  excuses : Fault → Prop := fun _ => False

section

variable {σ τ υ α β : Type}

namespace Machine

/-- From one session the first program does what the second one does from the other session. -/
def Paired (B : Bond σ τ υ) (p : Machine σ τ α) (s : Session σ τ) (q : Machine σ υ α)
    (t : Session σ υ) : Prop :=
  match p s, q t with
  | .ok a s, .ok b t => a = b ∧ B.joins s t
  | .error e s, .error f t => B.excuses e ∨ B.fails e s f t
  | .error e _, .ok _ _ => B.excuses e
  | .ok _ _, .error _ _ => False

namespace Paired

variable {B : Bond σ τ υ} {s : Session σ τ} {t : Session σ υ}

/-! ## Putting programs together -/

theorem of_ok {p : Machine σ τ α} {q : Machine σ υ α} {a : α} {s' : Session σ τ}
    {t' : Session σ υ} (hp : p s = .ok a s') (hq : q t = .ok a t') (h : B.joins s' t') :
    Paired B p s q t := by
  unfold Paired
  rw [hp, hq]
  exact ⟨rfl, h⟩

theorem of_error {p : Machine σ τ α} {q : Machine σ υ α} {e f : Fault} {s' : Session σ τ}
    {t' : Session σ υ} (hp : p s = .error e s') (hq : q t = .error f t')
    (h : B.fails e s' f t') : Paired B p s q t := by
  unfold Paired
  rw [hp, hq]
  exact .inr h

theorem of_excused {p : Machine σ τ α} {e : Fault} {s' : Session σ τ} (hp : p s = .error e s')
    (h : B.excuses e) (q : Machine σ υ α) : Paired B p s q t := by
  unfold Paired
  rw [hp]
  cases q t with
  | ok a t => exact h
  | error f t => exact .inl h

/-- Where the first program goes through, the second one does as well. -/
theorem exists_ok {p : Machine σ τ α} {q : Machine σ υ α} {a : α} {s' : Session σ τ}
    (h : Paired B p s q t) (hp : p s = .ok a s') : ∃ t', q t = .ok a t' ∧ B.joins s' t' := by
  unfold Paired at h
  rw [hp] at h
  cases hq : q t with
  | ok b t' =>
    rw [hq] at h
    obtain ⟨rfl, hjoins⟩ := h
    exact ⟨t', rfl, hjoins⟩
  | error f t' =>
    rw [hq] at h
    exact h.elim

theorem pure (h : B.joins s t) (a : α) : Paired B (pure a) s (pure a) t := ⟨rfl, h⟩

theorem bind {p : Machine σ τ α} {q : Machine σ υ α} {k : α → Machine σ τ β}
    {j : α → Machine σ υ β} (h : Paired B p s q t)
    (hnext : ∀ a s t, B.joins s t → Paired B (k a) s (j a) t) :
    Paired B (p >>= k) s (q >>= j) t := by
  unfold Paired at h
  cases hp : p s with
  | ok a s' =>
    cases hq : q t with
    | ok b t' =>
      rw [hp, hq] at h
      obtain ⟨rfl, hjoins⟩ := h
      have := hnext a s' t' hjoins
      unfold Paired at this ⊢
      rwa [bind_apply_of_ok hp, bind_apply_of_ok hq]
    | error f t' =>
      rw [hp, hq] at h
      exact h.elim
  | error e s' =>
    have hp' := bind_apply_of_error hp k
    cases hq : q t with
    | ok b t' =>
      rw [hp, hq] at h
      exact of_excused hp' h _
    | error f t' =>
      rw [hp, hq] at h
      rcases h with h | h
      · exact of_excused hp' h _
      · exact of_error hp' (bind_apply_of_error hq j) h

theorem read {k : Context σ → Machine σ τ β} {j : Context σ → Machine σ υ β}
    (h : Paired B (k s.context) s (j t.context) t) :
    Paired B (context >>= k) s (context >>= j) t := h

theorem discard {p : Machine σ τ α} {q : Machine σ υ α} (h : Paired B p s q t) :
    Paired B (Functor.discard p) s (Functor.discard q) t := by
  rw [discard_eq, discard_eq]
  exact h.bind fun _ _ _ hjoins => pure hjoins ()

theorem ite {c : Prop} [Decidable c] {p p' : Machine σ τ α} {q q' : Machine σ υ α}
    (h : Paired B p s q t) (h' : Paired B p' s q' t) :
    Paired B (if c then p else p') s (if c then q else q') t := by
  split
  · exact h
  · exact h'

/-! ## Pieces that both contexts show alike -/

theorem complain {e : FormatError} (hstrict : s.context.strict = t.context.strict)
    (hfails : B.fails (.format e) s (.format e) t)
    (hjoins : B.joins { s with context := s.context.remember e }
      { t with context := t.context.remember e }) :
    Paired B (complain e) s (complain e) t := by
  have hs := complain_apply e s
  have ht := complain_apply e t
  rw [hstrict] at hs
  split at hs
  · next h =>
    rw [if_pos h] at ht
    exact .of_error hs ht hfails
  · next h =>
    rw [if_neg h] at ht
    exact .of_ok hs ht hjoins

theorem tell {L : Listener σ τ} {M : Listener σ υ} {signal : Signal σ}
    (hverdict : (M.hear signal t.context t.gathered).verdict =
      (L.hear signal s.context s.gathered).verdict)
    (hjoins : B.joins (heard L signal s) (heard M signal t))
    (hfails : ∀ fault, B.fails fault (heard L signal s) fault (heard M signal t))
    (hcomplain : ∀ e, Paired B (Machine.complain e) (heard L signal s) (Machine.complain e)
      (heard M signal t)) :
    Paired B (tell L signal) s (tell M signal) t := by
  have hs := tell_apply L signal s
  have ht := tell_apply M signal t
  rw [hverdict] at ht
  cases hv : (L.hear signal s.context s.gathered).verdict with
  | accept =>
    rw [hv] at hs ht
    exact .of_ok hs ht hjoins
  | complain e =>
    rw [hv] at hs ht
    have := hcomplain e
    unfold Paired at this ⊢
    rwa [hs, ht]
  | refuse fault =>
    rw [hv] at hs ht
    exact .of_error hs ht (hfails fault)

theorem notFinished {delimiter : Text} (hframe : s.context.frame? = t.context.frame?)
    (hcomplain : ∀ e, Paired B (Machine.complain e) s (Machine.complain e) t)
    (hfails : ∀ fault, B.fails fault s fault t) :
    Paired B (notFinished delimiter) s (notFinished delimiter) t := by
  rw [Machine.notFinished, Machine.notFinished, frame_bind_eq, frame_bind_eq]
  refine .read ?_
  rw [hframe]
  cases t.context.frame? with
  | none => exact .of_error rfl rfl (hfails _)
  | some f => exact hcomplain _

theorem configure {escapes expressions : Option Bool}
    (hframe : s.context.frame? = t.context.frame?)
    (hjoins : B.joins { s with context := s.context.configure escapes expressions }
      { t with context := t.context.configure escapes expressions })
    (hfails : ∀ fault, B.fails fault s fault t) :
    Paired B (configure escapes expressions) s (configure escapes expressions) t := by
  rw [Machine.configure, Machine.configure, frame_bind_eq, frame_bind_eq]
  refine .read ?_
  rw [hframe]
  cases t.context.frame? with
  | none => exact .of_error rfl rfl (hfails _)
  | some f => exact .of_ok rfl rfl hjoins

theorem prepare (henabled : s.context.expressionsEnabled = t.context.expressionsEnabled)
    (hsame : s.context.resolve.2 = t.context.resolve.2) (hstay : B.joins s t)
    (hjoins : B.joins { s with context := s.context.resolve.1 }
      { t with context := t.context.resolve.1 })
    (hfails : ∀ fault, B.fails fault { s with context := s.context.resolve.1 } fault
      { t with context := t.context.resolve.1 }) :
    Paired B prepare s prepare t := by
  refine .read ?_
  rw [henabled]
  refine Paired.ite ?_ (.pure hstay ())
  have hs := resolve_apply s
  have ht := resolve_apply t
  rw [hsame] at hs
  cases herror : t.context.resolve.2 with
  | none =>
    rw [herror] at hs ht
    exact .of_ok hs ht hjoins
  | some e =>
    rw [herror] at hs ht
    exact .of_error hs ht (hfails _)

theorem advance (hend : s.context.atEnd = t.context.atEnd)
    (hjoins : B.joins { s with context := { s.context with location := s.context.location + 1 } }
      { t with context := { t.context with location := t.context.location + 1 } })
    (hfails : B.fails (.breach (.pastEnd s.context.location s.context.input.length)) s
      (.breach (.pastEnd t.context.location t.context.input.length)) t) :
    Paired B advance s advance t := by
  have hs := advance_apply s
  have ht := advance_apply t
  rw [hend] at hs
  split at hs
  · next h =>
    rw [if_pos h] at ht
    exact .of_error hs ht hfails
  · next h =>
    rw [if_neg h] at ht
    exact .of_ok hs ht hjoins

end Paired

/-- A class of actions that has every action of a state and all that its actions set off. -/
structure Spans (G : Graph σ) (K : Action σ → Prop) : Prop where
  closed : ∀ {a b : Action σ}, K a → a.SetsOff G b → K b
  dispatched : ∀ x character, K ((G x).actionFor character)
  onEnter : ∀ x, K (G x).onEnter
  onReturn : ∀ x, K (G x).onReturn
  onLeave : ∀ x, K (G x).onLeave
  onEnd : ∀ x, K (G x).onEnd

/-- All actions. -/
theorem Spans.all (G : Graph σ) : Spans G fun _ => True where
  closed _ _ := trivial
  dispatched _ _ := trivial
  onEnter _ := trivial
  onReturn _ := trivial
  onLeave _ := trivial
  onEnd _ := trivial

end Machine

namespace Bond

open Machine

/-- The second run may go on at least as long as the first one. -/
def Allots (B : Bond σ τ υ) (limit limit' : Nat) : Prop :=
  limit = limit' ∨ limit ≤ limit' ∧ B.excuses .endless

theorem Allots.of_succ {B : Bond σ τ υ} {limit limit' : Nat}
    (h : B.Allots (limit + 1) limit') : ∃ l, limit' = l + 1 ∧ B.Allots limit l := by
  rcases h with rfl | ⟨hle, hendless⟩
  · exact ⟨limit, rfl, .inl rfl⟩
  · refine ⟨limit' - 1, by omega, .inr ⟨by omega, hendless⟩⟩

theorem Allots.excuses {B : Bond σ τ υ} {limit : Nat} (h : B.Allots 0 (limit + 1)) :
    B.excuses .endless := by
  rcases h with h | h
  · cases h
  · exact h.2

/-- Corresponding sessions look alike, and what is done to them one piece at a time is paired; the
class is that of the actions that come up. -/
structure Holds (B : Bond σ τ υ) (G : Graph σ) (L : Listener σ τ) (M : Listener σ υ)
    (K : Action σ → Prop) : Prop where
  active : ∀ {s t}, B.joins s t → s.context.active = t.context.active
  character? : ∀ {s t}, B.joins s t → s.context.character? = t.context.character?
  escapes : ∀ {s t}, B.joins s t → s.context.escapesEnabled = t.context.escapesEnabled
  looks : ∀ {s t} (following preceding : Text), B.joins s t →
    s.context.isBesideSeparator following preceding =
      t.context.isBesideSeparator following preceding
  limits : ∀ {s t}, B.joins s t →
    B.Allots (unwindLimit s.context.settings s.context.stack.depth)
      (unwindLimit t.context.settings t.context.stack.depth)
  throws : ∀ {s t} (e : Fault), (∀ found, e ≠ .format found) → B.joins s t → B.fails e s e t
  places : ∀ {s t}, B.joins s t → L.place s.gathered = M.place t.gathered
  tells : ∀ {s t} (signal : Signal σ), B.joins s t → Paired B (tell L signal) s (tell M signal) t
  opens : ∀ {s t} (x : σ), B.joins s t → Paired B (opening G x) s (opening G x) t
  closes : ∀ {s t}, B.joins s t → Paired B closing s closing t
  complains : ∀ {s t} (delimiter : Text), B.joins s t →
    Paired B (notFinished delimiter) s (notFinished delimiter) t
  configures : ∀ {s t} (escapes expressions : Option Bool), K (.configure escapes expressions) →
    B.joins s t → Paired B (configure escapes expressions) s (configure escapes expressions) t
  prepares : ∀ {s t}, B.joins s t → Paired B prepare s prepare t
  advances : ∀ {s t}, B.joins s t → Paired B advance s advance t

namespace Holds

variable {B : Bond σ τ υ} {G : Graph σ} {L : Listener σ τ} {M : Listener σ υ}
  {K : Action σ → Prop} {s : Session σ τ} {t : Session σ υ} (holds : B.Holds G L M K)
include holds

theorem atEnd (h : B.joins s t) : s.context.atEnd = t.context.atEnd := by
  rw [Context.atEnd_eq_isNone, Context.atEnd_eq_isNone, holds.character? h]

theorem character (h : B.joins s t) : s.context.character = t.context.character := by
  rw [Context.character, Context.character, holds.character? h]

theorem depth (h : B.joins s t) : s.context.stack.depth = t.context.stack.depth := by
  have hactive := congrArg List.length (holds.active h)
  rwa [Context.active, Context.active, List.length_map, List.length_map] at hactive

/-- What the machine itself finds wrong is not about the line. -/
theorem throw (h : B.joins s t) {e : Fault} (he : ∀ found, e ≠ .format found) :
    Paired B (throw e : Machine σ τ α) s (MonadExcept.throw e) t :=
  .of_error rfl rfl (holds.throws e he h)

/-- Either no state is active in both sessions, or the same one is innermost. -/
theorem frames (h : B.joins s t) :
    s.context.frame? = none ∧ t.context.frame? = none ∨
      ∃ f g, s.context.frame? = some f ∧ t.context.frame? = some g ∧ f.state = g.state := by
  have hactive := holds.active h
  cases hs : s.context.active with
  | nil =>
    exact .inl ⟨Context.frame?_of_active_nil hs, Context.frame?_of_active_nil (hactive ▸ hs)⟩
  | cons x outer =>
    obtain ⟨f, hf, hfx⟩ := Context.frame?_of_active hs
    obtain ⟨g, hg, hgx⟩ := Context.frame?_of_active (hactive ▸ hs)
    exact .inr ⟨f, g, hf, hg, hfx.trans hgx.symm⟩

/-- Programs that depend on the innermost state only. -/
theorem frame_bind {k : Frame σ → Machine σ τ β} {j : Frame σ → Machine σ υ β}
    (h : B.joins s t) (hnext : ∀ f g : Frame σ, f.state = g.state → Paired B (k f) s (j g) t) :
    Paired B (frame >>= k) s (frame >>= j) t := by
  rw [frame_bind_eq, frame_bind_eq]
  refine .read ?_
  obtain ⟨hf, hg⟩ | ⟨f, g, hf, hg, hstate⟩ := holds.frames h
  · rw [hf, hg]
    exact holds.throw h nofun
  · rw [hf, hg]
    exact hnext f g hstate

theorem place_bind {k : Place → Machine σ τ β} {j : Place → Machine σ υ β} (h : B.joins s t)
    (hnext : ∀ place, Paired B (k place) s (j place) t) :
    Paired B (place L >>= k) s (place M >>= j) t := by
  have hs := place_apply L s
  have ht := place_apply M t
  rw [← holds.places h] at ht
  cases hplace : L.place s.gathered with
  | ok place =>
    rw [hplace] at hs ht
    have := hnext place
    unfold Paired at this ⊢
    rwa [bind_apply_of_ok hs, bind_apply_of_ok ht]
  | error d =>
    rw [hplace] at hs ht
    exact .of_error (bind_apply_of_error hs k) (bind_apply_of_error ht j) (holds.throws _ nofun h)

/-! ## Actions -/

section

variable {run : Action σ → Machine σ τ Unit} {run' : Action σ → Machine σ υ Unit}
  (hrun : ∀ (a : Action σ) (s : Session σ τ) (t : Session σ υ), K a → B.joins s t →
    Paired B (run a) s (run' a) t)
include hrun

theorem enterBy {x : σ} (hx : K (G x).onEnter) (h : B.joins s t) :
    Paired B (enterBy G L run x) s (enterBy G M run' x) t := by
  rw [enterBy_eq, enterBy_eq]
  exact (holds.opens x h).bind fun _ _ _ h => (holds.tells _ h).bind fun _ _ _ h => hrun _ _ _ hx h

theorem returnBy (hreturn : ∀ x, K (G x).onReturn) (h : B.joins s t) :
    Paired B (returnBy G run) s (returnBy G run') t := by
  refine .read ?_
  obtain ⟨hf, hg⟩ | ⟨f, g, hf, hg, hstate⟩ := holds.frames h
  · rw [hf, hg]
    exact .pure h _
  · rw [hf, hg]
    dsimp only
    rw [hstate]
    exact hrun _ _ _ (hreturn _) h

theorem closeBy (hreturn : ∀ x, K (G x).onReturn) (h : B.joins s t) :
    Paired B (closeBy G L run) s (closeBy G M run') t := by
  refine holds.frame_bind h fun f g hstate => ?_
  rw [hstate]
  exact (holds.tells _ h).bind fun _ _ _ h => (holds.closes h).bind fun _ _ _ h =>
    returnBy holds hrun hreturn h

theorem leaveBy (hleave : ∀ x, K (G x).onLeave) (hreturn : ∀ x, K (G x).onReturn)
    (h : B.joins s t) : Paired B (leaveBy G L run) s (leaveBy G M run') t := by
  rw [leaveBy_eq, leaveBy_eq]
  refine .read ?_
  obtain ⟨hf, hg⟩ | ⟨f, g, hf, hg, hstate⟩ := holds.frames h
  · rw [hf, hg]
    exact holds.throw h nofun
  · rw [hf, hg]
    dsimp only
    rw [hstate]
    exact (hrun _ _ _ (hleave _) h).bind fun _ _ _ h =>
      (closeBy holds hrun hreturn h).bind fun _ _ _ h => .pure h _

theorem dispatchBy (hdispatch : ∀ x character, K ((G x).actionFor character))
    (h : B.joins s t) : Paired B (dispatchBy G run) s (dispatchBy G run') t := by
  refine holds.frame_bind h fun f g hstate => .read ?_
  rw [hstate, holds.character h]
  exact hrun _ _ _ (hdispatch _ _) h

omit holds in
theorem forM {actions : List (Action σ)} (hactions : ∀ a ∈ actions, K a) (h : B.joins s t) :
    Paired B (actions.forM run) s (actions.forM run') t := by
  induction actions generalizing s t with
  | nil => exact .pure h _
  | cons a rest ih =>
    exact (hrun _ _ _ (hactions a List.mem_cons_self) h).bind fun _ _ _ h =>
      ih (fun b hb => hactions b (List.mem_cons_of_mem _ hb)) h

theorem perform (spans : Spans G K) {action : Action σ} (ha : K action) (h : B.joins s t) :
    Paired B (perform G L run action) s (perform G M run' action) t := by
  have entering (x : σ) {s t} (h : B.joins s t) :
      Paired B (Machine.enterBy G L run x) s (Machine.enterBy G M run' x) t :=
    enterBy holds hrun (spans.onEnter x) h
  have leaving {s t} (h : B.joins s t) :
      Paired B (Functor.discard (Machine.leaveBy G L run)) s
        (Functor.discard (Machine.leaveBy G M run')) t :=
    (leaveBy holds hrun spans.onLeave spans.onReturn h).discard
  cases action with
  | skip => exact .pure h _
  | content => exact holds.tells _ h
  | leave => exact leaving h
  | contentAndLeave => exact (holds.tells _ h).bind fun _ _ _ h => leaving h
  | dispatch => exact dispatchBy holds hrun spans.dispatched h
  | undefined => exact holds.throw h nofun
  | enter x => exact entering x h
  | escape x =>
    refine .read ?_
    rw [holds.escapes h]
    exact (entering x h).ite (holds.tells _ h)
  | chain actions => exact forM hrun (fun a hmem => spans.closed ha (.chained hmem)) h
  | notFinished delimiter => exact holds.complains delimiter h
  | configure escapes expressions => exact holds.configures escapes expressions ha h
  | besideSeparator following preceding otherwise =>
    refine .read ?_
    rw [holds.looks following preceding h]
    exact (Paired.pure h ()).ite (hrun _ _ _ (spans.closed ha .otherwise) h)
  | leaveOnGap =>
    refine .read ?_
    rw [holds.character? h]
    exact (leaving h).ite (.pure h _)
  | leaveOn characters =>
    refine .read ?_
    rw [holds.character? h]
    exact (leaving h).ite (.pure h _)
  | enterUnlessEnd x =>
    refine .read ?_
    rw [holds.atEnd h]
    exact (Paired.pure h ()).ite (entering x h)
  | startValue x => exact holds.place_bind h fun _ => (entering x h).ite (holds.tells _ h)
  | startBraces object bytes =>
    exact holds.place_bind h fun _ =>
      (entering object h).ite ((entering bytes h).ite (holds.tells _ h))
  | endItem => exact holds.place_bind h fun _ => holds.tells _ h
  | endName =>
    exact holds.place_bind h fun _ => (holds.tells _ h).bind fun _ _ _ h =>
      (Paired.pure h ()).ite (holds.tells _ h)

end

variable (spans : Spans G K)
include spans

theorem actUpTo (limit : Nat) {action : Action σ} (ha : K action) (h : B.joins s t) :
    Paired B (actUpTo G L limit action) s (actUpTo G M limit action) t := by
  induction limit generalizing action s t with
  | zero => exact holds.throw h nofun
  | succ limit ih => exact perform holds (fun _ _ _ ha h => ih ha h) spans ha h

theorem act {action : Action σ} (ha : K action) (h : B.joins s t) :
    Paired B (act G L action) s (act G M action) t := actUpTo holds spans _ ha h

theorem enter (x : σ) (h : B.joins s t) : Paired B (enter G L x) s (enter G M x) t :=
  enterBy holds (fun _ _ _ ha h => act holds spans ha h) (spans.onEnter x) h

theorem leave (h : B.joins s t) : Paired B (leave G L) s (leave G M) t :=
  leaveBy holds (fun _ _ _ ha h => act holds spans ha h) spans.onLeave spans.onReturn h

theorem dispatch (h : B.joins s t) : Paired B (dispatch G L) s (dispatch G M) t :=
  dispatchBy holds (fun _ _ _ ha h => act holds spans ha h) spans.dispatched h

theorem endState (h : B.joins s t) : Paired B (endState G L) s (endState G M) t := by
  refine holds.frame_bind h fun f g hstate => ?_
  rw [hstate]
  exact act holds spans (spans.onEnd _) h

/-! ## Whole runs -/

theorem step (h : B.joins s t) : Paired B (step G L) s (step G M) t := by
  rw [step_eq, step_eq]
  refine (holds.prepares h).bind fun _ _ _ h => .read ?_
  rw [holds.atEnd h]
  exact (Paired.pure h ()).ite
    ((dispatch holds spans h).bind fun _ _ _ h => holds.advances h)

theorem walk {limit limit' : Nat} (hlimit : B.Allots limit limit') (h : B.joins s t) :
    Paired B (walk G L limit) s (walk G M limit') t := by
  induction limit generalizing limit' s t with
  | zero =>
    cases limit' with
    | zero =>
      refine .read ?_
      rw [holds.atEnd h]
      exact (Paired.pure h ()).ite (holds.throw h nofun)
    | succ limit' =>
      refine .read ?_
      rw [holds.atEnd h]
      exact (Paired.pure h ()).ite (.of_excused rfl hlimit.excuses _)
  | succ limit ih =>
    obtain ⟨limit', rfl, hmore⟩ := hlimit.of_succ
    refine .read ?_
    rw [holds.atEnd h]
    exact (Paired.pure h ()).ite ((step holds spans h).bind fun _ _ _ h => ih hmore h)

theorem unwind {limit limit' : Nat} (hlimit : B.Allots limit limit') (h : B.joins s t) :
    Paired B (unwind G L limit) s (unwind G M limit') t := by
  induction limit generalizing limit' s t with
  | zero =>
    cases limit' with
    | zero =>
      refine .read ?_
      rw [holds.depth h]
      exact (holds.throw h fun _ => Fault.noConfusion).ite (.pure h ())
    | succ limit' =>
      refine .read ?_
      rw [holds.depth h]
      exact (Paired.of_excused rfl hlimit.excuses _).ite (.pure h ())
  | succ limit ih =>
    obtain ⟨limit', rfl, hmore⟩ := hlimit.of_succ
    refine .read ?_
    rw [holds.depth h]
    refine Paired.ite ((endState holds spans h).bind fun _ _ _ h => .read ?_) (.pure h ())
    rw [holds.depth h]
    split
    · exact (leave holds spans h).discard.bind fun _ _ _ h => ih hmore h
    · exact ih hmore h

/-- The end of the line. -/
theorem finish (h : B.joins s t) : Paired B (finish G L) s (finish G M) t := by
  have last {s t} (h : B.joins s t) : Paired B
      (do if 0 < (← Machine.context).stack.depth then Functor.discard (Machine.leave G L)) s
      (do if 0 < (← Machine.context).stack.depth then Functor.discard (Machine.leave G M)) t := by
    refine .read ?_
    rw [holds.depth h]
    exact (leave holds spans h).discard.ite (.pure h ())
  refine .read ((unwind holds spans (holds.limits h) h).bind fun _ _ _ h => .read ?_)
  rw [holds.depth h]
  split
  · exact (endState holds spans h).bind fun _ _ _ h => last h
  · exact last h

/-- The rest of a run goes as that of the other one does. -/
theorem walk_finish {limit limit' : Nat} (hlimit : B.Allots limit limit') (h : B.joins s t) :
    Paired B (do Machine.walk G L limit; Machine.finish G L) s
      (do Machine.walk G M limit'; Machine.finish G M) t :=
  (walk holds spans hlimit h).bind fun _ _ _ h => finish holds spans h

/-- A whole run goes as the other one does. -/
theorem readFrom (initial : σ) {limit limit' : Nat} (hlimit : B.Allots limit limit')
    (h : B.joins s t) : Paired B (readFrom G L initial limit) s (readFrom G M initial limit') t :=
  (enter holds spans initial h).bind fun _ _ _ h => walk_finish holds spans hlimit h

end Holds
end Bond
end
end CommandLine
