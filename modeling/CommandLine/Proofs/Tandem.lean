/-
# `CommandLine.Proofs.Tandem` — two runs side by side

A run is compared with a second one whose sessions stand on other footings: `φ` gives the other
footing for each footing, and `s.via φ` is the session `s` on it.  A program is in *tandem* when
it does to `s.via φ` what it does to `s`:

    p (s.via φ) = carry φ (p s)

The one exception is an error that ends the run when it is strict and that the second run passes
over: there the runs part, and the second one goes on from where the first one has ended, with the
error remembered (`Parted`).

**What the footings must have in common** (`Concord`), for the sessions within a domain `D`: the
second run is no stricter than the first, both lines show the same character under the cursor, and
the look around a separator gives the same answer.  Only actions of a class `K` are performed, so
that these looks need to agree only where they happen; `K` must hold of every action that one of
its actions sets off.

The comparison of strict with lenient reading takes the footing with strictness switched off and
all actions; the comparison of a line with its substituted text takes that text as the footing.
-/
import CommandLine.Proofs.Moves

namespace CommandLine

/-! ## What actions set off -/

namespace Action

variable {σ : Type}

/-- The action may leave the current state. -/
def mayLeave : Action σ → Bool
  | leave | contentAndLeave | leaveOnGap | leaveOn _ => true
  | _ => false

/-- The states that the action may enter. -/
def mayEnter : Action σ → List σ
  | enter state | escape state | enterUnlessEnd state | startValue state => [state]
  | startBraces object bytes => [object, bytes]
  | _ => []

/-- What performing an action sets off in turn, dispatching apart. -/
inductive SetsOff (G : Graph σ) : Action σ → Action σ → Prop
  | last {a : Action σ} (x : σ) : a.mayLeave = true → SetsOff G a (G x).onLeave
  | returned {a : Action σ} (x : σ) : a.mayLeave = true → SetsOff G a (G x).onReturn
  | first {a : Action σ} {x : σ} : x ∈ a.mayEnter → SetsOff G a (G x).onEnter
  | chained {actions : List (Action σ)} {a : Action σ} : a ∈ actions → SetsOff G (chain actions) a
  | otherwise {following preceding : Text} {a : Action σ} :
      SetsOff G (besideSeparator following preceding a) a

end Action

section

variable {σ τ α β : Type}

/-- The context lies within a domain of footings and locations. -/
def Context.Within (D : Footing → Nat → Prop) (c : Context σ) : Prop := D c.footing c.location

/-- The session on the footing that belongs to its own. -/
def Session.via (φ : Footing → Footing) (s : Session σ τ) : Session σ τ :=
  { s with context := s.context.onto (φ s.context.footing) }

namespace Machine

/-- What the footings of two runs have in common within a domain, as far as the actions of a class
can tell. -/
structure Concord (G : Graph σ) (φ : Footing → Footing) (D : Footing → Nat → Prop)
    (K : Action σ → Prop) : Prop where
  strict : ∀ {c : Context σ}, c.Within D → (φ c.footing).strict = true → c.strict = true
  alike : ∀ {c : Context σ}, c.Within D → c.SeesAlike (φ c.footing)
  looks : ∀ {c : Context σ} {following preceding : Text} {a : Action σ}, c.Within D →
    K (.besideSeparator following preceding a) →
    (c.onto (φ c.footing)).isBesideSeparator following preceding =
      c.isBesideSeparator following preceding
  closed : ∀ {a b : Action σ}, K a → a.SetsOff G b → K b
  dispatched : ∀ {c : Context σ} (x : σ), c.Within D → K .dispatch →
    K ((G x).actionFor c.character)

/-- Every footing is in concord with itself. -/
theorem Concord.refl (G : Graph σ) (D : Footing → Nat → Prop) :
    Concord G (fun f => f) D fun _ => True where
  strict _ h := h
  alike _ := rfl
  looks _ _ := rfl
  closed _ _ := trivial
  dispatched _ _ _ := trivial

/-- The same ending on the other footing. -/
def carry (φ : Footing → Footing) :
    EStateM.Result Fault (Session σ τ) α → EStateM.Result Fault (Session σ τ) α
  | .ok a s => .ok a (s.via φ)
  | .error fault s => .error fault (s.via φ)

/-- The first run ends with an error that the second one has passed over: either it is remembered
there, or it is about a name that lenient reading leaves as it stands. -/
def Parted (G : Graph σ) (L : Listener σ τ) (φ : Footing → Footing) (p : Machine σ τ α)
    (s : Session σ τ) : Prop :=
  ∃ (e : FormatError) (u : Session σ τ), p s = .error (.format e) u ∧
    u.context.strict = true ∧ (φ u.context.footing).strict = false ∧
    (Moves G L { u.via φ with context := (u.via φ).context.remember e } (after p (s.via φ)) ∨
      u.context.settings.substitutes = true ∧ Moves G L (u.via φ) (after p (s.via φ)))

/-- What the first run has recorded the second one has recorded first. -/
theorem Parted.log_prefix {ε : Type} {log : τ → List ε} {G : Graph σ} {L : Listener σ τ}
    {φ : Footing → Footing} {p : Machine σ τ α} {s : Session σ τ} (hlog : L.Logs log)
    (h : Parted G L φ p s) : log (after p s).gathered <+: log (after p (s.via φ)).gathered := by
  obtain ⟨e, u, he, -, -, hmoves⟩ := h
  rw [after_of_error he]
  rcases hmoves with hmoves | ⟨-, hmoves⟩
  · have := hmoves.log_prefix hlog
    exact this
  · have := hmoves.log_prefix hlog
    exact this

/-- The second run remembers the error in the end, if it is the first one and not about a name. -/
theorem Parted.remembered {G : Graph σ} {L : Listener σ τ} {φ : Footing → Footing}
    {p : Machine σ τ α} {s : Session σ τ} (h : Parted G L φ p s) :
    ∃ (e : FormatError) (u : Session σ τ), p s = .error (.format e) u ∧
      (u.context.error = none → u.context.settings.substitutes = false →
        (after p (s.via φ)).context.error = some e) := by
  obtain ⟨e, u, he, -, -, hmoves⟩ := h
  refine ⟨e, u, he, fun hnone hplain => ?_⟩
  rcases hmoves with hmoves | ⟨hsubstitutes, -⟩
  · refine hmoves.error_of_some ?_
    show u.context.error.or (some e) = some e
    rw [hnone]
    rfl
  · rw [hplain] at hsubstitutes
    cases hsubstitutes

/-- The program does the same to both sessions, or the runs part. -/
structure Tandem (G : Graph σ) (L : Listener σ τ) (φ : Footing → Footing)
    (D : Footing → Nat → Prop) (p : Machine σ τ α) : Prop where
  stays : ∀ s, s.context.Within D → (after p s).context.Within D
  same : ∀ s, s.context.Within D → p (s.via φ) = carry φ (p s) ∨ Parted G L φ p s

variable {G : Graph σ} {L : Listener σ τ} {φ : Footing → Footing} {D : Footing → Nat → Prop}

theorem after_bind_moves {p : Machine σ τ α} {k : α → Machine σ τ β}
    (hk : ∀ a, Follows G L (k a)) (s : Session σ τ) :
    Moves G L (after p s) (after (p >>= k) s) := by
  cases h : p s with
  | ok a t =>
    rw [after_of_ok h, after, bind_apply_of_ok h]
    exact hk a t
  | error fault t =>
    rw [after_of_error h, after, bind_apply_of_error h]

namespace Tandem

/-- Runs that are equally strict never part. -/
theorem same_of_strict {p : Machine σ τ α} {s : Session σ τ} (h : Tandem G L φ D p)
    (hstrict : ∀ c : Context σ, c.Within D → (φ c.footing).strict = c.strict)
    (hs : s.context.Within D) : p (s.via φ) = carry φ (p s) := by
  rcases h.same s hs with heq | ⟨e, u, he, hu, hlenient, -⟩
  · exact heq
  · have hstay := h.stays s hs
    rw [after_of_error he] at hstay
    rw [hstrict u.context hstay, hu] at hlenient
    cases hlenient

/-! ## Putting programs together -/

theorem pure (a : α) : Tandem G L φ D (pure a) := ⟨fun _ hs => hs, fun _ _ => .inl rfl⟩

theorem throw (fault : Fault) : Tandem G L φ D (throw fault : Machine σ τ α) :=
  ⟨fun _ hs => hs, fun _ _ => .inl rfl⟩

theorem bind {p : Machine σ τ α} {k : α → Machine σ τ β} (hp : Tandem G L φ D p)
    (hf : ∀ a, Follows G L (k a)) (hk : ∀ a, Tandem G L φ D (k a)) :
    Tandem G L φ D (p >>= k) := by
  constructor
  · intro s hs
    have hstay := hp.stays s hs
    cases h : p s with
    | ok a t =>
      rw [after_of_ok h] at hstay
      rw [after, bind_apply_of_ok h]
      exact (hk a).stays t hstay
    | error fault t =>
      rw [after_of_error h] at hstay
      rw [after, bind_apply_of_error h]
      exact hstay
  · intro s hs
    have hstay := hp.stays s hs
    rcases hp.same s hs with heq | ⟨e, u, he, hstrict, hlenient, hmoves⟩
    · cases h : p s with
      | ok a t =>
        rw [after_of_ok h] at hstay
        rw [h] at heq
        have hvia : (p >>= k) (s.via φ) = k a (t.via φ) := bind_apply_of_ok heq k
        rcases (hk a).same t hstay with hsame | ⟨e, u, he, hparted⟩
        · exact .inl (by rw [hvia, bind_apply_of_ok h, hsame])
        · refine .inr ⟨e, u, by rw [bind_apply_of_ok h, he], ?_⟩
          have hafter : after (p >>= k) (s.via φ) = after (k a) (t.via φ) := by
            rw [after, hvia, after]
          rw [hafter]
          exact hparted
      | error fault t =>
        rw [h] at heq
        exact .inl (by rw [bind_apply_of_error h, bind_apply_of_error heq]; rfl)
    · -- the runs have parted: whatever follows only adds moves to the second one
      have hmore := after_bind_moves (p := p) hf (s.via φ)
      refine .inr ⟨e, u, bind_apply_of_error he k, hstrict, hlenient, ?_⟩
      rcases hmoves with h | ⟨hsub, h⟩
      · exact .inl (h.trans hmore)
      · exact .inr ⟨hsub, h.trans hmore⟩

/-- A program may depend on what both contexts show alike. -/
theorem read {k : Context σ → Machine σ τ β} (hk : ∀ c, c.Within D → Tandem G L φ D (k c))
    (hsame : ∀ c, c.Within D → k (c.onto (φ c.footing)) = k c) :
    Tandem G L φ D (context >>= k) := by
  constructor
  · intro s hs
    exact (hk s.context hs).stays s hs
  · intro s hs
    have hvia : (context >>= k) (s.via φ) = k s.context (s.via φ) := by
      rw [context_bind_apply]
      exact congrFun (hsame s.context hs) _
    rcases (hk s.context hs).same s hs with h | ⟨e, u, he, hparted⟩
    · exact .inl (hvia.trans h)
    · refine .inr ⟨e, u, he, ?_⟩
      have hafter : after (context >>= k) (s.via φ) = after (k s.context) (s.via φ) := by
        rw [after, hvia, after]
      rw [hafter]
      exact hparted

theorem discard {p : Machine σ τ α} (hp : Tandem G L φ D p) :
    Tandem G L φ D (Functor.discard p) := by
  rw [discard_eq]
  exact hp.bind (fun _ => .pure _) fun _ => .pure _

theorem forM {run : Action σ → Machine σ τ Unit} (hf : ∀ a, Follows G L (run a))
    {actions : List (Action σ)} (hrun : ∀ a ∈ actions, Tandem G L φ D (run a)) :
    Tandem G L φ D (actions.forM run) := by
  induction actions with
  | nil => exact .pure _
  | cons a rest ih =>
    refine (hrun a List.mem_cons_self).bind (fun _ => .forM hf rest) fun _ => ih ?_
    exact fun b hb => hrun b (List.mem_cons_of_mem a hb)

theorem frame : Tandem G L φ D frame := by
  constructor
  · intro s hs
    rw [after, frame_apply]
    cases s.context.frame? <;> exact hs
  · intro s _
    rw [frame_apply, frame_apply]
    have : (s.via φ).context.frame? = s.context.frame? := rfl
    rw [this]
    cases s.context.frame? <;> exact .inl rfl

theorem place : Tandem G L φ D (place L) := by
  constructor
  · intro s hs
    rw [after, place_apply]
    cases L.place s.gathered <;> exact hs
  · intro s _
    rw [place_apply, place_apply]
    have : (s.via φ).gathered = s.gathered := rfl
    rw [this]
    cases L.place s.gathered <;> exact .inl rfl

theorem opening (name : σ) : Tandem G L φ D (opening G name) := by
  constructor
  · intro s hs
    rw [after, opening_apply]
    cases s.context.stack.push (s.context.frameFor name (G name)) with
    | ok stack =>
      show D (Context.markValue _ _).footing (Context.markValue _ _).location
      rw [Context.footing_markValue, Context.location_markValue]
      exact hs
    | error e => exact hs
  · intro s _
    left
    rw [opening_apply, opening_apply]
    have : (s.via φ).context.stack.push ((s.via φ).context.frameFor name (G name)) =
        s.context.stack.push (s.context.frameFor name (G name)) := rfl
    rw [this]
    cases s.context.stack.push (s.context.frameFor name (G name)) with
    | ok stack =>
      simp only [carry, Session.via, Context.footing_markValue, ← Context.markValue_onto]
      rfl
    | error e => rfl

theorem closing : Tandem G L φ D closing := by
  constructor
  · intro s hs
    rw [after, closing_apply]
    cases s.context.stack.pop with
    | ok popped =>
      show D (Context.unlockValue _).footing (Context.unlockValue _).location
      rw [Context.footing_unlockValue, Context.location_unlockValue]
      exact hs
    | error d => exact hs
  · intro s _
    left
    rw [closing_apply, closing_apply]
    have : (s.via φ).context.stack.pop = s.context.stack.pop := rfl
    rw [this]
    cases s.context.stack.pop with
    | ok popped =>
      simp only [carry, Session.via, Context.footing_unlockValue, ← Context.unlockValue_onto]
      rfl
    | error d => rfl

theorem configure (escapes expressions : Option Bool) :
    Tandem G L φ D (configure escapes expressions) :=
  frame.bind (fun _ _ => .single (.configured escapes expressions)) fun _ =>
    ⟨fun _ hs => hs, fun _ _ => .inl rfl⟩

section

variable {K : Action σ → Prop} (concord : Concord G φ D K)
include concord

/-- Both runs end with the error, both remember it, or they part here. -/
theorem complain (e : FormatError) : Tandem G L φ D (complain e) := by
  constructor
  · intro s hs
    rw [after, complain_apply]
    cases s.context.strict <;> exact hs
  · intro s hs
    rw [complain_apply, complain_apply]
    have hvia : (s.via φ).context.strict = (φ s.context.footing).strict := rfl
    cases h : s.context.strict with
    | true =>
      cases h' : (φ s.context.footing).strict with
      | true => exact .inl (by rw [hvia, h']; rfl)
      | false =>
        refine .inr ⟨e, s, ?_, h, h', .inl ?_⟩
        · rw [complain_apply, h]
          rfl
        · rw [after, complain_apply, hvia, h']
          exact .refl
    | false =>
      cases h' : (φ s.context.footing).strict with
      | true =>
        have := concord.strict hs h'
        rw [h] at this
        cases this
      | false => exact .inl (by rw [hvia, h']; rfl)

theorem tell (hL : L.IsLocal) (signal : Signal σ) : Tandem G L φ D (tell L signal) := by
  constructor
  · intro s hs
    have hheard : (heard L signal s).context.Within D := hs
    rw [after, tell_apply]
    cases (L.hear signal s.context s.gathered).verdict with
    | accept => exact hs
    | complain e => exact (complain (L := L) concord e).stays _ hheard
    | refuse fault => exact hs
  · intro s hs
    have hheard : (heard L signal s).context.Within D := hs
    have hhear := hL signal s.context (φ s.context.footing) s.gathered (concord.alike hs)
    have hvia : heard L signal (s.via φ) = (heard L signal s).via φ := by
      show Session.mk _ (L.hear signal (s.context.onto _) s.gathered).gathered = _
      rw [hhear]
      rfl
    have hverdict : (L.hear signal (s.via φ).context (s.via φ).gathered).verdict =
        (L.hear signal s.context s.gathered).verdict := congrArg Reply.verdict hhear
    have htell := tell_apply L signal (s.via φ)
    rw [hverdict, hvia] at htell
    rw [Parted, after, htell, tell_apply]
    cases (L.hear signal s.context s.gathered).verdict with
    | accept => exact .inl rfl
    | complain e => exact (complain concord e).same _ hheard
    | refuse fault => exact .inl rfl

theorem notFinished (delimiter : Text) : Tandem G L φ D (notFinished delimiter) :=
  frame.bind (fun _ => .complain _) fun _ => complain concord _

/-! ## Actions -/

section

variable {run : Action σ → Machine σ τ Unit} (hL : L.IsLocal)
  (hf : ∀ a, Follows G L (run a)) (hrun : ∀ a, K a → Tandem G L φ D (run a))
include hL hf hrun

theorem enterBy {name : σ} (hfirst : K (G name).onEnter) :
    Tandem G L φ D (enterBy G L run name) := by
  rw [enterBy_eq]
  refine (opening name).bind (fun _ => (Follows.tell _).bind fun _ => hf _) fun _ => ?_
  exact (tell concord hL _).bind (fun _ => hf _) fun _ => hrun _ hfirst

omit concord hL hf in
theorem returnBy (hreturn : ∀ x, K (G x).onReturn) : Tandem G L φ D (returnBy G run) := by
  refine read (fun d _ => ?_) fun d _ => rfl
  cases d.frame? with
  | none => exact .pure _
  | some below => exact hrun _ (hreturn _)

theorem closeBy (hreturn : ∀ x, K (G x).onReturn) : Tandem G L φ D (closeBy G L run) := by
  have follow : Follows G L (Machine.returnBy G run) := .returnBy hf
  refine frame.bind
    (fun _ => (Follows.tell _).bind fun _ => Follows.closing.bind fun _ => follow) fun _ => ?_
  refine (tell concord hL _).bind (fun _ => Follows.closing.bind fun _ => follow) fun _ => ?_
  exact closing.bind (fun _ => follow) fun _ => returnBy hrun hreturn

theorem leaveBy (hlast : ∀ x, K (G x).onLeave) (hreturn : ∀ x, K (G x).onReturn) :
    Tandem G L φ D (leaveBy G L run) := by
  rw [leaveBy_eq]
  refine read (fun c _ => ?_) fun c _ => rfl
  cases c.frame? with
  | none => exact .throw _
  | some first =>
    refine (hrun _ (hlast _)).bind
      (fun _ => (Follows.closeBy hf).bind fun _ => .pure _) fun _ => ?_
    exact (closeBy concord hL hf hrun hreturn).bind (fun _ => .pure _) fun _ => .pure _

omit hL hf in
theorem dispatchBy (hK : K .dispatch) : Tandem G L φ D (dispatchBy G run) := by
  rw [dispatchBy_eq]
  refine read (fun c hc => ?_) fun c hc => ?_
  · cases c.frame? with
    | none => exact .throw _
    | some f => exact hrun _ (concord.dispatched f.state hc hK)
  · rw [(concord.alike hc).character]
    rfl

theorem perform {action : Action σ} (hK : K action) :
    Tandem G L φ D (perform G L run action) := by
  have entering : ∀ {x : σ}, x ∈ action.mayEnter → Tandem G L φ D (Machine.enterBy G L run x) :=
    fun hx => enterBy concord hL hf hrun (concord.closed hK (.first hx))
  have leaving : action.mayLeave = true →
      Tandem G L φ D (Functor.discard (Machine.leaveBy G L run)) := fun h =>
    discard (leaveBy concord hL hf hrun (fun x => concord.closed hK (.last x h))
      fun x => concord.closed hK (.returned x h))
  cases action with
  | skip => exact .pure _
  | content => exact tell concord hL _
  | leave => exact leaving rfl
  | contentAndLeave =>
    exact (tell concord hL _).bind (fun _ => .discard (.leaveBy hf)) fun _ => leaving rfl
  | dispatch => exact dispatchBy concord hrun hK
  | undefined => exact .throw _
  | enter state => exact entering List.mem_cons_self
  | escape state =>
    refine read (fun c _ => ?_) fun c _ => rfl
    split
    · exact entering List.mem_cons_self
    · exact tell concord hL _
  | chain actions => exact forM hf fun a ha => hrun a (concord.closed hK (.chained ha))
  | notFinished delimiter => exact notFinished concord delimiter
  | configure escapes expressions => exact configure escapes expressions
  | besideSeparator following preceding otherwise =>
    refine read (fun c _ => ?_) fun c hc => ?_
    · split
      · exact .pure _
      · exact hrun _ (concord.closed hK .otherwise)
    · rw [concord.looks hc hK]
  | leaveOnGap =>
    refine read (fun c _ => ?_) fun c hc => ?_
    · split
      · exact leaving rfl
      · exact .pure _
    · rw [show (c.onto _).character? = c.character? from concord.alike hc]
  | leaveOn characters =>
    refine read (fun c _ => ?_) fun c hc => ?_
    · split
      · exact leaving rfl
      · exact .pure _
    · rw [show (c.onto _).character? = c.character? from concord.alike hc]
  | enterUnlessEnd state =>
    refine read (fun c _ => ?_) fun c hc => ?_
    · split
      · exact .pure _
      · exact entering List.mem_cons_self
    · rw [(concord.alike hc).atEnd]
  | startValue state =>
    refine place.bind (fun p => ?_) fun p => ?_
    · split
      · exact .enterBy hf state
      · exact .tell _
    · split
      · exact entering List.mem_cons_self
      · exact tell concord hL _
  | startBraces object bytes =>
    refine place.bind (fun p => ?_) fun p => ?_
    · split
      · exact .enterBy hf object
      · split
        · exact .enterBy hf bytes
        · exact .tell _
    · split
      · exact entering List.mem_cons_self
      · split
        · exact entering (List.mem_cons_of_mem _ List.mem_cons_self)
        · exact tell concord hL _
  | endItem => exact place.bind (fun _ => .tell _) fun _ => tell concord hL _
  | endName =>
    have last (p : Place) : Follows G L
        (if p.endsName then Pure.pure () else Machine.tell L .content) := by
      split
      · exact .pure _
      · exact .tell _
    refine place.bind (fun p => (Follows.tell _).bind fun _ => last p) fun p => ?_
    refine (tell concord hL _).bind (fun _ => last p) fun _ => ?_
    split
    · exact .pure _
    · exact tell concord hL _

end

variable (hL : L.IsLocal)
include hL

theorem actUpTo (limit : Nat) {action : Action σ} (hK : K action) :
    Tandem G L φ D (actUpTo G L limit action) := by
  induction limit generalizing action with
  | zero => exact .throw _
  | succ limit ih => exact perform concord hL (Follows.actUpTo limit) (fun a ha => ih ha) hK

/-- An action of the class does the same to both sessions, or the runs part. -/
theorem act {action : Action σ} (hK : K action) : Tandem G L φ D (act G L action) :=
  actUpTo concord hL _ hK

theorem enter {name : σ} (hfirst : K (G name).onEnter) : Tandem G L φ D (enter G L name) :=
  enterBy concord hL Follows.act (fun _ => act concord hL) hfirst

theorem leave (hlast : ∀ x, K (G x).onLeave) (hreturn : ∀ x, K (G x).onReturn) :
    Tandem G L φ D (leave G L) :=
  leaveBy concord hL Follows.act (fun _ => act concord hL) hlast hreturn

theorem dispatch (hK : K .dispatch) : Tandem G L φ D (dispatch G L) :=
  dispatchBy concord (fun _ => act concord hL) hK

/-! ## On one line -/

section

variable (hline : ∀ c : Context σ, c.Within D → (φ c.footing).line = c.line)
  (hforward : ∀ {f : Footing} {location : Nat}, D f location → D f (location + 1))
include hline hforward

omit concord hL in
/-- On one line both cursors move on. -/
theorem advance : Tandem G L φ D advance := by
  have hend : ∀ s : Session σ τ, s.context.Within D →
      (s.via φ).context.atEnd = s.context.atEnd := by
    intro s hs
    show decide ((φ s.context.footing).line.substituted.length ≤ _) = _
    rw [hline s.context hs]
    rfl
  constructor
  · intro s hs
    rw [after, advance_apply]
    cases s.context.atEnd with
    | true => exact hs
    | false => exact hforward hs
  · intro s hs
    left
    rw [advance_apply, advance_apply, hend s hs]
    cases s.context.atEnd with
    | true =>
      have hlength : (s.via φ).context.input.length = s.context.input.length :=
        congrArg (fun line => line.substituted.length) (hline s.context hs)
      show EStateM.Result.error (Fault.breach (.pastEnd _ (s.via φ).context.input.length)) _ = _
      rw [hlength]
      rfl
    | false => rfl

theorem handle (hK : K .dispatch) : Tandem G L φ D (handle G L) :=
  (dispatch concord hL hK).bind (fun _ => .advance) fun _ => advance hline hforward

end

/-! ## The end of the line -/

section

variable (hend : ∀ x, K (G x).onEnd)
include hend

theorem endState : Tandem G L φ D (endState G L) :=
  frame.bind (fun _ => Follows.act _) fun f => act concord hL (hend f.state)

variable (hlast : ∀ x, K (G x).onLeave) (hreturn : ∀ x, K (G x).onReturn)
include hlast hreturn

theorem unwind (limit : Nat) : Tandem G L φ D (unwind G L limit) := by
  induction limit with
  | zero =>
    refine read (fun c _ => ?_) fun c _ => rfl
    split
    · exact .throw _
    · exact .pure _
  | succ limit ih =>
    refine read (fun c _ => ?_) fun c _ => rfl
    split
    · have follow : Follows G L (do
          if 1 < (← Machine.context).stack.depth then Functor.discard (Machine.leave G L)
          Machine.unwind G L limit) := by
        refine .read fun d => ?_
        split
        · exact Follows.leave.discard.bind fun _ => Follows.unwind limit
        · exact Follows.unwind limit
      refine (endState concord hL hend).bind (fun _ => follow) fun _ => ?_
      refine read (fun d _ => ?_) fun d _ => rfl
      split
      · exact (leave concord hL hlast hreturn).discard.bind (fun _ => Follows.unwind limit)
          fun _ => ih
      · exact ih
    · exact .pure _

/-- Both runs end the states that are still active alike. -/
theorem finish (hdepth : ∀ c : Context σ, c.Within D →
      (φ c.footing).settings.maxDepth = c.settings.maxDepth) :
    Tandem G L φ D (finish G L) := by
  have followLast : Follows G L (do
      if 0 < (← Machine.context).stack.depth then Functor.discard (Machine.leave G L)) := by
    refine .read fun e => ?_
    split
    · exact Follows.leave.discard
    · exact .pure _
  have last : Tandem G L φ D (do
      if 0 < (← Machine.context).stack.depth then Functor.discard (Machine.leave G L)) := by
    refine read (fun e _ => ?_) fun e _ => rfl
    split
    · exact (leave concord hL hlast hreturn).discard
    · exact .pure _
  have followEnds : Follows G L (do
      if 0 < (← Machine.context).stack.depth then Machine.endState G L
      if 0 < (← Machine.context).stack.depth then Functor.discard (Machine.leave G L)) := by
    refine .read fun d => ?_
    split
    · exact Follows.endState.bind fun _ => followLast
    · exact followLast
  refine read (fun c _ => ?_) fun c hc => ?_
  · refine (unwind concord hL hend hlast hreturn _).bind (fun _ => followEnds) fun _ => ?_
    refine read (fun d _ => ?_) fun d _ => rfl
    split
    · exact (endState concord hL hend).bind (fun _ => followLast) fun _ => last
    · exact last
  · have : unwindLimit (c.onto (φ c.footing)).settings (c.onto (φ c.footing)).stack.depth =
        unwindLimit c.settings c.stack.depth := by
      rw [unwindLimit, unwindLimit, Context.settings_onto, hdepth c hc]
      rfl
    rw [this]

end
end
end Tandem
end Machine
end
end CommandLine
