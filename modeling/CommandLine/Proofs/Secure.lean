/-
# `CommandLine.Proofs.Secure` — what actions do to the active states

Of all that an action changes, only the list of active states decides whether the next one can go
wrong.  `Secure` runs an action on that list alone, the innermost state first: the character under
the cursor is known, and of everything else, a look around a separator or a full stack, both
outcomes are followed.  `Secure G guard reads d n a Q active` says that the action `a` meets no
missing state, no undefined action and no listener that cannot answer, sets off others less than
`n` deep, and leaves active states of which `Q` holds.  Whatever a listener is told, the guard
allows that signal with the states that are active at that moment.  An `Outlook` can also rule out
that a backslash is content or that a value is found unfinished.

**Soundness** (`Machine.Governs.actUpTo`): if each piece of an action that the outlook allows, a
state that is entered or left, a signal, keeps the session as it should be with the states that are
then active, the action ends with states of which `Q` holds and with such a session, or as it may
fail.

A listener that keeps its record in step with the active states (`Listener.Steady`) is the case in
which the line and the cursor stay what they are and an action fails with an error about the line
only; what that record always satisfies, it satisfies after an error as well.
-/
import CommandLine.Proofs.Programs
import CommandLine.Proofs.Resolving

namespace CommandLine

/-! ## Errors about the line -/

/-- The error only wraps a failure that is not in the line. -/
def FormatError.isWrapper : FormatError → Bool
  | notParsed _ _ => true
  | _ => false

/-- The fault says what is wrong with the line, and a lenient run could not pass over it. -/
inductive Fault.AboutLine (strict : Bool) : Fault → Prop
  | format {e : FormatError} (real : e.isWrapper = false)
      (grave : strict = false → e.isTolerable = false) : AboutLine strict (.format e)

theorem FormatError.isWrapper_of_isUnresolved {e : FormatError} (h : e.isUnresolved = true) :
    e.isWrapper = false := by
  cases e <;> first | rfl | cases h

/-! ## How a program ends -/

namespace Machine

variable {σ τ α β : Type}

/-- Started on the session, the program goes through with `Q` or ends early with `F`. -/
def Ends (F : Fault → Session σ τ → Prop) (Q : α → Session σ τ → Prop) (p : Machine σ τ α)
    (s : Session σ τ) : Prop :=
  match p s with
  | .ok a t => Q a t
  | .error fault t => F fault t

namespace Ends

variable {F : Fault → Session σ τ → Prop} {s : Session σ τ}

theorem of_ok {Q : α → Session σ τ → Prop} {p : Machine σ τ α} {a : α} {t : Session σ τ}
    (h : p s = .ok a t) (ht : Q a t) : Ends F Q p s := by
  rw [Ends, h]
  exact ht

theorem of_error {Q : α → Session σ τ → Prop} {p : Machine σ τ α} {fault : Fault}
    {t : Session σ τ} (h : p s = .error fault t) (ht : F fault t) : Ends F Q p s := by
  rw [Ends, h]
  exact ht

/-- What two programs do alike they end with alike. -/
theorem of_eq {Q : α → Session σ τ → Prop} {p q : Machine σ τ α} {t : Session σ τ}
    (h : p s = q t) (hq : Ends F Q q t) : Ends F Q p s := by
  rw [Ends, h]
  exact hq

theorem ok {Q : α → Session σ τ → Prop} {p : Machine σ τ α} {a : α} {t : Session σ τ}
    (h : Ends F Q p s) (hp : p s = .ok a t) : Q a t := by
  rw [Ends, hp] at h
  exact h

theorem error {Q : α → Session σ τ → Prop} {p : Machine σ τ α} {fault : Fault}
    {t : Session σ τ} (h : Ends F Q p s) (hp : p s = .error fault t) : F fault t := by
  rw [Ends, hp] at h
  exact h

theorem pure {Q : α → Session σ τ → Prop} {a : α} (h : Q a s) :
    Ends F Q (pure a : Machine σ τ α) s := h

theorem bind {R : α → Session σ τ → Prop} {Q : β → Session σ τ → Prop} {p : Machine σ τ α}
    {k : α → Machine σ τ β} (hp : Ends F R p s) (hk : ∀ a t, R a t → Ends F Q (k a) t) :
    Ends F Q (p >>= k) s := by
  cases h : p s with
  | ok a t =>
    rw [Ends, h] at hp
    rw [Ends, bind_apply_of_ok h]
    exact hk a t hp
  | error fault t =>
    rw [Ends, h] at hp
    rw [Ends, bind_apply_of_error h]
    exact hp

theorem read {Q : β → Session σ τ → Prop} {k : Context σ → Machine σ τ β}
    (h : Ends F Q (k s.context) s) : Ends F Q (context >>= k) s := h

theorem mono {E : Fault → Session σ τ → Prop} {R Q : α → Session σ τ → Prop}
    {p : Machine σ τ α} (h : Ends F R p s) (hF : ∀ fault t, F fault t → E fault t)
    (hQ : ∀ a t, R a t → Q a t) : Ends E Q p s := by
  unfold Ends at h ⊢
  cases hp : p s with
  | ok a t =>
    rw [hp] at h
    exact hQ a t h
  | error fault t =>
    rw [hp] at h
    exact hF fault t h

theorem discard {Q : Session σ τ → Prop} {p : Machine σ τ α} (h : Ends F (fun _ t => Q t) p s) :
    Ends F (fun _ t => Q t) (Functor.discard p) s := by
  rw [discard_eq]
  exact h.bind fun _ _ ht => ht

/-! ### The pieces -/

section

variable {G : Graph σ} {L : Listener σ τ} {Q : Unit → Session σ τ → Prop}

theorem complain {e : FormatError} (strict : s.context.strict = true → F (.format e) s)
    (lenient : s.context.strict = false → Q () { s with context := s.context.remember e }) :
    Ends F Q (complain e) s := by
  have h := complain_apply e s
  cases hs : s.context.strict with
  | true =>
    rw [hs] at h
    exact .of_error h (strict hs)
  | false =>
    rw [hs] at h
    exact .of_ok h (lenient hs)

theorem tell {signal : Signal σ}
    (accepted : (L.hear signal s.context s.gathered).verdict = .accept → Q () (heard L signal s))
    (complains : ∀ {e}, (L.hear signal s.context s.gathered).verdict = .complain e →
      Ends F Q (Machine.complain e) (heard L signal s))
    (refused : ∀ {fault}, (L.hear signal s.context s.gathered).verdict = .refuse fault →
      F fault (heard L signal s)) : Ends F Q (tell L signal) s := by
  have h := tell_apply L signal s
  cases hv : (L.hear signal s.context s.gathered).verdict with
  | accept =>
    rw [hv] at h
    exact .of_ok h (accepted hv)
  | complain e =>
    rw [hv] at h
    rw [Ends, h]
    exact complains hv
  | refuse fault =>
    rw [hv] at h
    exact .of_error h (refused hv)

theorem opening {x : σ}
    (room : ∀ {stack}, s.context.stack.push (s.context.frameFor x (G x)) = .ok stack →
      Q () { s with context := { s.context with stack := stack }.markValue (G x) })
    (full : s.context.stack.maxDepth ≤ s.context.stack.depth →
      F (.format (.nestingTooDeep s.context.stack.maxDepth s.context.location)) s) :
    Ends F Q (opening G x) s := by
  have h := opening_apply G x s
  cases hp : s.context.stack.push (s.context.frameFor x (G x)) with
  | ok stack =>
    rw [hp] at h
    exact .of_ok h (room hp)
  | error e =>
    rw [hp] at h
    unfold Stack.push at hp
    split at hp
    · next hfull =>
      cases hp
      exact .of_error h (full hfull)
    · cases hp

theorem closing (hactive : s.context.active ≠ [])
    (popped : ∀ {frame stack}, s.context.stack.pop = .ok (frame, stack) →
      Q () { s with context := { s.context with stack := stack }.unlockValue }) :
    Ends F Q closing s := by
  have h := closing_apply s
  cases hp : s.context.stack.pop with
  | ok popping =>
    rw [hp] at h
    exact .of_ok h (popped hp)
  | error d =>
    unfold Stack.pop at hp
    split at hp
    · next hframes =>
      rw [Context.active, hframes] at hactive
      exact absurd rfl hactive
    · cases hp

end
end Ends
end Machine

/-! ## Running an action on the active states -/

/-- What can come up while some states are active. -/
structure Outlook (σ : Type) where
  /-- The listener may be told the signal. -/
  guard : Signal σ → List σ → Prop
  /-- The listener is asked what can stand at the current place of a value. -/
  reads : List σ → Prop
  /-- A backslash may be content, because escapes are switched off. -/
  literal : List σ → Prop := fun _ => True
  /-- The value of the innermost state may be found unfinished. -/
  unfinished : List σ → Prop := fun _ => True

namespace Secure

variable {σ : Type} (G : Graph σ) (guard : Signal σ → List σ → Prop) (character : Option Char)

section

variable (run : Action σ → (List σ → Prop) → List σ → Prop)

/-- Entering a state. -/
def enterBy (x : σ) (Q : List σ → Prop) (active : List σ) : Prop :=
  guard (.entered x) (x :: active) ∧ run (G x).onEnter Q (x :: active)

/-- Coming back to the state that is innermost now. -/
def returnBy (Q : List σ → Prop) : List σ → Prop
  | [] => Q []
  | x :: outer => run (G x).onReturn Q (x :: outer)

/-- Taking the innermost state off. -/
def closeBy (Q : List σ → Prop) : List σ → Prop
  | [] => False
  | x :: outer => guard (.leaving x) (x :: outer) ∧ returnBy G run Q outer

/-- Leaving the innermost state. -/
def leaveBy (Q : List σ → Prop) : List σ → Prop
  | [] => False
  | x :: outer => run (G x).onLeave (closeBy G guard run Q) (x :: outer)

/-- The action of the innermost state. -/
def dispatchBy (Q : List σ → Prop) : List σ → Prop
  | [] => False
  | x :: outer => run ((G x).actionFor character.toList) Q (x :: outer)

/-- Performing one action; `run` performs the actions that it sets off. -/
def perform (o : Outlook σ) : Action σ → (List σ → Prop) → List σ → Prop
  | .skip, Q, active => Q active
  | .content, Q, active => o.guard .content active ∧ Q active
  | .leave, Q, active => leaveBy G o.guard run Q active
  | .contentAndLeave, Q, active => o.guard .content active ∧ leaveBy G o.guard run Q active
  | .dispatch, Q, active => dispatchBy G character run Q active
  | .undefined, _, _ | .configure _ _, _, _ => False
  | .enter x, Q, active => enterBy G o.guard run x Q active
  | .escape x, Q, active =>
    enterBy G o.guard run x Q active ∧
      (o.literal active → o.guard .content active ∧ Q active)
  | .chain actions, Q, active => actions.foldr run Q active
  | .notFinished _, Q, active => o.unfinished active ∧ active ≠ [] ∧ Q active
  | .besideSeparator _ _ otherwise, Q, active => Q active ∧ run otherwise Q active
  | .leaveOnGap, Q, active =>
    if character.any Text.isGap then leaveBy G o.guard run Q active else Q active
  | .leaveOn characters, Q, active =>
    if character.any characters.contains then leaveBy G o.guard run Q active else Q active
  | .enterUnlessEnd x, Q, active =>
    if character.isNone then Q active else enterBy G o.guard run x Q active
  | .startValue x, Q, active =>
    o.reads active ∧ enterBy G o.guard run x Q active ∧ o.guard .content active ∧ Q active
  | .startBraces x y, Q, active =>
    o.reads active ∧ enterBy G o.guard run x Q active ∧ enterBy G o.guard run y Q active ∧
      o.guard .content active ∧ Q active
  | .endItem, Q, active => o.reads active ∧ o.guard .itemEnd active ∧ Q active
  | .endName, Q, active =>
    o.reads active ∧ o.guard .nameEnd active ∧ o.guard .content active ∧ Q active

end

/-- The action is safe on the active states as far as the outlook goes, and leaves states of which
`Q` holds. -/
def within (o : Outlook σ) : Nat → Action σ → (List σ → Prop) → List σ → Prop
  | 0 => fun _ _ _ => False
  | limit + 1 => perform G character (within o limit) o

end Secure

/-- The action is safe on the active states and leaves states of which `Q` holds. -/
abbrev Secure {σ : Type} (G : Graph σ) (guard : Signal σ → List σ → Prop) (reads : List σ → Prop)
    (character : Option Char) : Nat → Action σ → (List σ → Prop) → List σ → Prop :=
  Secure.within G character { guard := guard, reads := reads }

section

variable {σ : Type} {G : Graph σ} {guard : Signal σ → List σ → Prop} {reads : List σ → Prop}
  {character : Option Char} {limit : Nat} {Q : List σ → Prop}

theorem secure_leave_succ {active : List σ} :
    Secure G guard reads character (limit + 1) .leave Q active =
      Secure.leaveBy G guard (Secure G guard reads character limit) Q active := rfl

theorem secure_dispatch_succ {x : σ} {outer : List σ} :
    Secure G guard reads character (limit + 1) .dispatch Q (x :: outer) =
      Secure G guard reads character limit ((G x).actionFor character.toList) Q (x :: outer) := rfl

theorem secure_chain_pair (first second : Action σ) {active : List σ} :
    Secure G guard reads character (limit + 1) (.chain [first, second]) Q active =
      Secure G guard reads character limit first
        (Secure G guard reads character limit second Q) active := rfl

end

/-! ## Soundness -/

/-- The signal is about the current state, which stays. -/
def Signal.isStill {σ : Type} : Signal σ → Bool
  | content | itemEnd | nameEnd => true
  | entered _ | leaving _ => false

section

variable {σ τ α : Type}

namespace Machine

/-- Pushes the frame of a state and tells the listener that it has been entered. -/
def announce (G : Graph σ) (L : Listener σ τ) (x : σ) : Machine σ τ Unit := do
  opening G x
  tell L (.entered x)

theorem enterBy_eq_announce (G : Graph σ) (L : Listener σ τ) (run : Action σ → Machine σ τ Unit)
    (x : σ) : enterBy G L run x = (announce G L x >>= fun _ => run (G x).onEnter) := by
  rw [enterBy_eq, announce, bind_assoc]

/-- Tells the listener that a state is left and pops its frame. -/
def dismiss (L : Listener σ τ) (x : σ) : Machine σ τ Unit := do
  tell L (.leaving x)
  closing

/-- The program ends with active states of which `Q` holds, and with a session that is with them as
`K` says, or it fails as `F` says. -/
abbrev Reaches (K : List σ → Session σ τ → Prop) (F : Fault → Session σ τ → Prop)
    (Q : List σ → Prop) (p : Machine σ τ α) (s : Session σ τ) : Prop :=
  Ends F (fun _ t => ∃ active, Q active ∧ K active t) p s

/-- On a character each piece of an action that the outlook allows keeps the session as `K` says
with the active states, or fails as `F` says. -/
structure Governs (G : Graph σ) (L : Listener σ τ) (o : Outlook σ) (character : Option Char)
    (K : List σ → Session σ τ → Prop) (F : Fault → Session σ τ → Prop) : Prop where
  active_eq : ∀ {active s}, K active s → s.context.active = active
  character_eq : ∀ {active s}, K active s → s.context.character? = character
  literal : ∀ {active s}, K active s → s.context.escapesEnabled = false → o.literal active
  enters : ∀ {x outer s}, o.guard (.entered x) (x :: outer) → K outer s →
    Ends F (fun _ => K (x :: outer)) (announce G L x) s
  leaves : ∀ {x outer s}, o.guard (.leaving x) (x :: outer) → K (x :: outer) s →
    Ends F (fun _ => K outer) (dismiss L x) s
  tells : ∀ {signal active s}, signal.isStill = true → o.guard signal active → K active s →
    Ends F (fun _ => K active) (tell L signal) s
  complains : ∀ {x outer s} (delimiter : Text), o.unfinished (x :: outer) → K (x :: outer) s →
    Ends F (fun _ => K (x :: outer)) (notFinished delimiter) s
  places : ∀ {active s}, o.reads active → K active s → ∃ p, L.place s.gathered = .ok p

namespace Governs

variable {G : Graph σ} {L : Listener σ τ} {o : Outlook σ} {character : Option Char}
  {K : List σ → Session σ τ → Prop} {F : Fault → Session σ τ → Prop}
  (governs : Governs G L o character K F)
  {active : List σ} {s : Session σ τ} {Q : List σ → Prop}

include governs in
/-- The listener says where it stands, and the session stays as it is. -/
theorem ask {R : α → Session σ τ → Prop} {k : Place → Machine σ τ α} (hreads : o.reads active)
    (hs : K active s) (hk : ∀ p, Ends F R (k p) s) : Ends F R (place L >>= k) s := by
  obtain ⟨p, hp⟩ := governs.places hreads hs
  have hplace : place L s = .ok p s := by
    rw [place_apply, hp]
  rw [Ends, bind_apply_of_ok hplace]
  exact hk p

/-! ### Actions -/

section

variable {run : Action σ → Machine σ τ Unit} {secure : Action σ → (List σ → Prop) → List σ → Prop}
  (hrun : ∀ (a : Action σ) (Q : List σ → Prop) (active : List σ) (s : Session σ τ),
    secure a Q active → K active s → Reaches K F Q (run a) s)

include governs

/-- A signal that leaves the active states alone. -/
theorem still {signal : Signal σ} (hstill : signal.isStill = true) (hguard : o.guard signal active)
    (hQ : Q active) (hs : K active s) : Reaches K F Q (tell L signal) s :=
  (governs.tells hstill hguard hs).mono (fun _ _ h => h) fun _ _ ht => ⟨active, hQ, ht⟩

include hrun

theorem enterBy {x : σ} (h : Secure.enterBy G o.guard secure x Q active) (hs : K active s) :
    Reaches K F Q (enterBy G L run x) s := by
  rw [enterBy_eq_announce]
  exact (governs.enters h.1 hs).bind fun _ t ht => hrun _ _ _ _ h.2 ht

theorem returnBy (h : Secure.returnBy G secure Q active) (hs : K active s) :
    Reaches K F Q (returnBy G run) s := by
  refine .read ?_
  cases active with
  | nil =>
    rw [Context.frame?_of_active_nil (governs.active_eq hs)]
    exact .pure ⟨[], h, hs⟩
  | cons x outer =>
    obtain ⟨frame, hframe, rfl⟩ := Context.frame?_of_active (governs.active_eq hs)
    rw [hframe]
    exact hrun _ _ _ _ h hs

theorem closeBy (h : Secure.closeBy G o.guard secure Q active) (hs : K active s) :
    Reaches K F Q (closeBy G L run) s := by
  cases active with
  | nil => exact h.elim
  | cons x outer =>
    obtain ⟨frame, hframe, rfl⟩ := Context.frame?_of_active (governs.active_eq hs)
    unfold Machine.closeBy
    rw [frame_bind_eq]
    refine .read ?_
    rw [hframe]
    have hends : Reaches K F Q (dismiss L frame.state >>= fun _ => Machine.returnBy G run) s :=
      (governs.leaves h.1 hs).bind fun _ t ht => governs.returnBy hrun h.2 ht
    rw [dismiss, bind_assoc] at hends
    exact hends

theorem leaveBy (h : Secure.leaveBy G o.guard secure Q active) (hs : K active s) :
    Reaches K F Q (leaveBy G L run) s := by
  cases active with
  | nil => exact h.elim
  | cons x outer =>
    obtain ⟨frame, hframe, rfl⟩ := Context.frame?_of_active (governs.active_eq hs)
    rw [leaveBy_eq]
    refine .read ?_
    rw [hframe]
    refine Ends.bind (hrun _ _ _ _ h hs) fun _ t ht => ?_
    obtain ⟨inner, hclose, ht⟩ := ht
    exact Ends.bind (governs.closeBy hrun hclose ht) fun _ u hu => .pure hu

theorem dispatchBy (h : Secure.dispatchBy G character secure Q active) (hs : K active s) :
    Reaches K F Q (dispatchBy G run) s := by
  cases active with
  | nil => exact h.elim
  | cons x outer =>
    obtain ⟨frame, hframe, rfl⟩ := Context.frame?_of_active (governs.active_eq hs)
    have hcharacter : s.context.character = character.toList := by
      rw [Context.character, governs.character_eq hs]
    rw [dispatchBy_eq]
    refine .read ?_
    rw [hframe, hcharacter]
    exact hrun _ _ _ _ h hs

omit governs in
theorem forM {actions : List (Action σ)} (h : actions.foldr secure Q active) (hs : K active s) :
    Reaches K F Q (actions.forM run) s := by
  induction actions generalizing active s with
  | nil => exact .pure ⟨active, h, hs⟩
  | cons a rest ih =>
    refine Ends.bind (hrun _ _ _ _ h hs) fun _ t ht => ?_
    obtain ⟨inner, hrest, ht⟩ := ht
    exact ih hrest ht

theorem perform {action : Action σ} (h : Secure.perform G character secure o action Q active)
    (hs : K active s) : Reaches K F Q (perform G L run action) s := by
  have leaving (h : Secure.leaveBy G o.guard secure Q active) :
      Reaches K F Q (Functor.discard (Machine.leaveBy G L run)) s :=
    Ends.discard (governs.leaveBy hrun h hs)
  have content (h : o.guard .content active ∧ Q active) : Reaches K F Q (tell L .content) s :=
    governs.still rfl h.1 h.2 hs
  have hcharacter := governs.character_eq hs
  cases action with
  | skip => exact .pure ⟨active, h, hs⟩
  | content => exact content h
  | leave => exact leaving h
  | contentAndLeave =>
    refine Ends.bind (governs.tells rfl h.1 hs) fun _ t ht => ?_
    exact Ends.discard (governs.leaveBy hrun h.2 ht)
  | dispatch => exact governs.dispatchBy hrun h hs
  | undefined => exact h.elim
  | enter state => exact governs.enterBy hrun h hs
  | escape state =>
    refine .read ?_
    split
    · exact governs.enterBy hrun h.1 hs
    · next hescapes => exact content (h.2 (governs.literal hs (Bool.eq_false_iff.2 hescapes)))
  | chain actions => exact forM hrun h hs
  | notFinished delimiter =>
    cases active with
    | nil => exact absurd rfl h.2.1
    | cons x outer =>
      exact (governs.complains delimiter h.1 hs).mono (fun _ _ h => h) fun _ _ ht => ⟨_, h.2.2, ht⟩
  | configure escapes expressions => exact h.elim
  | besideSeparator following preceding otherwise =>
    refine .read ?_
    split
    · exact .pure ⟨active, h.1, hs⟩
    · exact hrun _ _ _ _ h.2 hs
  | leaveOnGap =>
    refine .read ?_
    simp only [Secure.perform, ← hcharacter] at h
    split at h
    · next hgap => rw [if_pos hgap]; exact leaving h
    · next hgap => rw [if_neg hgap]; exact .pure ⟨active, h, hs⟩
  | leaveOn characters =>
    refine .read ?_
    simp only [Secure.perform, ← hcharacter] at h
    split at h
    · next hon => rw [if_pos hon]; exact leaving h
    · next hon => rw [if_neg hon]; exact .pure ⟨active, h, hs⟩
  | enterUnlessEnd state =>
    refine .read ?_
    simp only [Secure.perform, ← hcharacter, ← Context.atEnd_eq_isNone] at h
    split at h
    · next hend => rw [if_pos hend]; exact .pure ⟨active, h, hs⟩
    · next hend => rw [if_neg hend]; exact governs.enterBy hrun h hs
  | startValue state =>
    refine governs.ask h.1 hs fun p => ?_
    split
    · exact governs.enterBy hrun h.2.1 hs
    · exact content h.2.2
  | startBraces object bytes =>
    refine governs.ask h.1 hs fun p => ?_
    split
    · exact governs.enterBy hrun h.2.1 hs
    · split
      · exact governs.enterBy hrun h.2.2.1 hs
      · exact content h.2.2.2
  | endItem =>
    refine governs.ask h.1 hs fun p => ?_
    exact governs.still rfl h.2.1 h.2.2 hs
  | endName =>
    refine governs.ask h.1 hs fun p => ?_
    refine Ends.bind (governs.tells rfl h.2.1 hs) fun _ u hu => ?_
    split
    · exact .pure ⟨active, h.2.2.2, hu⟩
    · exact governs.still rfl h.2.2.1 h.2.2.2 hu

end

include governs

/-- An action that is secure within the outlook ends with the active states that it should end with,
or as it may fail. -/
theorem actUpTo (limit : Nat) {action : Action σ}
    (h : Secure.within G character o limit action Q active) (hs : K active s) :
    Reaches K F Q (actUpTo G L limit action) s := by
  induction limit generalizing action Q active s with
  | zero => exact h.elim
  | succ limit ih => exact governs.perform (fun _ _ _ _ h hs => ih h hs) h hs

theorem act {action : Action σ} (h : Secure.within G character o actionLimit action Q active)
    (hs : K active s) : Reaches K F Q (act G L action) s :=
  governs.actUpTo actionLimit h hs

theorem enter {x : σ}
    (h : Secure.enterBy G o.guard (Secure.within G character o actionLimit) x Q active)
    (hs : K active s) : Reaches K F Q (enter G L x) s :=
  governs.enterBy (fun _ _ _ _ h hs => governs.act h hs) h hs

theorem leave (h : Secure.leaveBy G o.guard (Secure.within G character o actionLimit) Q active)
    (hs : K active s) : Reaches K F Q (leave G L) s :=
  governs.leaveBy (fun _ _ _ _ h hs => governs.act h hs) h hs

theorem dispatch
    (h : Secure.dispatchBy G character (Secure.within G character o actionLimit) Q active)
    (hs : K active s) : Reaches K F Q (dispatch G L) s :=
  governs.dispatchBy (fun _ _ _ _ h hs => governs.act h hs) h hs

theorem endState {x : σ} {outer : List σ}
    (h : Secure.within G character o actionLimit (G x).onEnd Q (x :: outer))
    (hs : K (x :: outer) s) : Reaches K F Q (endState G L) s := by
  obtain ⟨frame, hframe, rfl⟩ := Context.frame?_of_active (governs.active_eq hs)
  rw [Machine.endState, frame_bind_eq]
  refine .read ?_
  rw [hframe]
  exact governs.act h hs

end Governs
end Machine
end

/-! ## Listeners that keep step -/

/-- The answer keeps `P`, or at least `E` if it ends the run, and what it finds wrong is about the
line. -/
def Reply.Keeps {τ : Type} (strict : Bool) (E P : τ → Prop) (reply : Reply τ) : Prop :=
  match reply.verdict with
  | .accept => P reply.gathered
  | .complain e => e.isWrapper = false ∧ P reply.gathered
  | .refuse fault => fault.AboutLine strict ∧ E reply.gathered

/-- On a character the listener keeps what it has gathered in step with the active states, as far as
the signals are guarded, and can say what can stand at the current place wherever it `reads`
values.  Whatever happens, `E` holds of what it has gathered. -/
structure Listener.Steady {σ τ : Type} (L : Listener σ τ) (guard : Signal σ → List σ → Prop)
    (reads : List σ → Prop) (character : Option Char) (J : List σ → τ → Prop) (E : τ → Prop) :
    Prop where
  entered : ∀ {c : Context σ} {x : σ} {outer : List σ} {g : τ}, c.character? = character →
    c.active = x :: outer → guard (.entered x) (x :: outer) → J outer g →
      (L.hear (.entered x) c g).Keeps c.strict E (J (x :: outer))
  leaving : ∀ {c : Context σ} {x : σ} {outer : List σ} {g : τ}, c.character? = character →
    c.active = x :: outer → guard (.leaving x) (x :: outer) → J (x :: outer) g →
      (L.hear (.leaving x) c g).Keeps c.strict E (J outer)
  content : ∀ {c : Context σ} {g : τ}, guard .content c.active → J c.active g →
    (L.hear .content c g).Keeps c.strict E (J c.active)
  itemEnd : ∀ {c : Context σ} {g : τ}, guard .itemEnd c.active → J c.active g →
    (L.hear .itemEnd c g).Keeps c.strict E (J c.active)
  nameEnd : ∀ {c : Context σ} {g : τ}, guard .nameEnd c.active → J c.active g →
    (L.hear .nameEnd c g).Keeps c.strict E (J c.active)
  place : ∀ {active : List σ} {g : τ}, reads active → J active g → ∃ p, L.place g = .ok p
  sound : ∀ {active : List σ} {g : τ}, J active g → E g

section

variable {σ τ α : Type}

/-- The session stands on a footing at a location, with these active states. -/
structure Session.Stands (J : List σ → τ → Prop) (f : Footing) (location : Nat)
    (active : List σ) (s : Session σ τ) : Prop where
  footing_eq : s.context.footing = f
  location_eq : s.context.location = location
  active_eq : s.context.active = active
  kept : J active s.gathered

theorem Session.Stands.imp {J K : List σ → τ → Prop} {f : Footing} {location : Nat}
    {active : List σ} {s : Session σ τ} (h : s.Stands J f location active)
    (hJK : ∀ {g}, J active g → K active g) : s.Stands K f location active :=
  ⟨h.footing_eq, h.location_eq, h.active_eq, hJK h.kept⟩

/-- The session stands there with active states of which `Q` holds. -/
def Session.Settles (J : List σ → τ → Prop) (f : Footing) (location : Nat)
    (Q : List σ → Prop) (s : Session σ τ) : Prop :=
  ∃ active, Q active ∧ s.Stands J f location active

/-- The character at a location. -/
def Footing.character? (f : Footing) (location : Nat) : Option Char :=
  f.line.substituted[location]?

namespace Machine

variable {G : Graph σ} {L : Listener σ τ} {guard : Signal σ → List σ → Prop}
  {reads : List σ → Prop} {J : List σ → τ → Prop} {E : τ → Prop} {f : Footing} {location : Nat}
  {active : List σ} {s : Session σ τ} {Q : List σ → Prop}

/-- The run ends with an error about the line, and `E` holds of what has been gathered. -/
def Fails (E : τ → Prop) (strict : Bool) (fault : Fault) (s : Session σ τ) : Prop :=
  fault.AboutLine strict ∧ E s.gathered

/-- The program leaves the line and the cursor alone and ends with active states of which `Q`
holds, or with an error about the line. -/
abbrev Settles (J : List σ → τ → Prop) (E : τ → Prop) (f : Footing) (location : Nat)
    (Q : List σ → Prop) (p : Machine σ τ α) (s : Session σ τ) : Prop :=
  Ends (Fails E f.strict) (fun _ t => t.Settles J f location Q) p s

theorem Settles.imp {K : List σ → τ → Prop} {R : List σ → Prop} {p : Machine σ τ α}
    (h : Settles J E f location Q p s)
    (hQR : ∀ {active g}, Q active → J active g → R active ∧ K active g) :
    Settles K E f location R p s := by
  refine Ends.mono h (fun _ _ hF => hF) fun _ t ht => ?_
  obtain ⟨active, hQ, ht⟩ := ht
  exact ⟨active, (hQR hQ ht.kept).1, ht.imp fun hJ => (hQR hQ hJ).2⟩

/-! ### The pieces -/

/-- The program leaves everything but the active states and the listener alone. -/
abbrev Leaves (J : List σ → τ → Prop) (E : τ → Prop) (f : Footing) (location : Nat)
    (active : List σ) (p : Machine σ τ α) (s : Session σ τ) : Prop :=
  Ends (Fails E f.strict) (fun _ t => t.Stands J f location active) p s

theorem Leaves.complain {e : FormatError} (real : e.isWrapper = false) (hE : E s.gathered)
    (hs : s.Stands J f location active) : Leaves J E f location active (complain e) s := by
  have hstrict : s.context.strict = f.strict := congrArg Footing.strict hs.footing_eq
  refine Ends.complain (fun hstrictly => ⟨.format real fun hl => ?_, hE⟩) fun _ =>
    ⟨hs.footing_eq, hs.location_eq, hs.active_eq, hs.kept⟩
  rw [← hstrict, hstrictly] at hl
  cases hl

theorem Leaves.tell {signal : Signal σ} {P : τ → Prop} (hP : ∀ {g}, P g → E g)
    (hs : s.Stands J f location active)
    (hkeeps : (L.hear signal s.context s.gathered).Keeps s.context.strict E P) :
    Leaves (fun _ => P) E f location active (tell L signal) s := by
  have hstrict : s.context.strict = f.strict := congrArg Footing.strict hs.footing_eq
  have hheard {g : τ} (hg : P g) :
      ({ s with gathered := g } : Session σ τ).Stands (fun _ => P) f location active :=
    ⟨hs.footing_eq, hs.location_eq, hs.active_eq, hg⟩
  rw [Reply.Keeps, hstrict] at hkeeps
  refine Ends.tell (fun hv => ?_) (fun {e} hv => ?_) fun {fault} hv => ?_
  · rw [hv] at hkeeps
    exact hheard hkeeps
  · rw [hv] at hkeeps
    exact Leaves.complain hkeeps.1 (hP hkeeps.2) (hheard hkeeps.2)
  · rw [hv] at hkeeps
    exact hkeeps

/-- Pushing the frame of a state changes nothing but the active states, unless the stack is full. -/
theorem ends_opening {F : Fault → Session σ τ → Prop} (x : σ) (hs : s.Stands J f location active)
    (full : F (.format (.nestingTooDeep s.context.stack.maxDepth s.context.location)) s) :
    Ends F (fun _ t => t.Stands (fun _ => J active) f location (x :: active)) (opening G x) s := by
  refine Ends.opening (fun hp => ⟨?_, ?_, ?_, hs.kept⟩) fun _ => full
  · rw [Context.footing_markValue]
    exact hs.footing_eq
  · rw [Context.location_markValue]
    exact hs.location_eq
  · rw [Context.active_markValue, Context.active_of_push hp, hs.active_eq]

/-- Popping a frame changes nothing but the active states. -/
theorem ends_closing {F : Fault → Session σ τ → Prop} {x : σ} {outer : List σ}
    (hs : s.Stands (fun _ => J outer) f location (x :: outer)) :
    Ends F (fun _ t => t.Stands J f location outer) closing s := by
  have hactive := hs.active_eq
  refine Ends.closing (hactive ▸ List.cons_ne_nil x outer) fun hp => ?_
  rw [Context.active_of_pop hp] at hactive
  refine ⟨?_, ?_, ?_, hs.kept⟩
  · rw [Context.footing_unlockValue]
    exact hs.footing_eq
  · rw [Context.location_unlockValue]
    exact hs.location_eq
  · rw [Context.active_unlockValue]
    exact (List.cons.inj hactive).2

theorem character?_of_stands (hs : s.Stands J f location active) :
    s.context.character? = f.character? location := by
  rw [← hs.footing_eq, ← hs.location_eq]
  rfl

/-- The innermost state acts on the character. -/
theorem ends_dispatchBy {F : Fault → Session σ τ → Prop} {P : Unit → Session σ τ → Prop}
    {run : Action σ → Machine σ τ Unit} {x : σ} {outer : List σ} {d : Char}
    (hs : s.Stands J f location (x :: outer)) (hd : f.character? location = some d)
    (next : Ends F P (run ((G x).actionFor [d])) s) : Ends F P (dispatchBy G run) s := by
  obtain ⟨frame, hframe, rfl⟩ := Context.frame?_of_active hs.active_eq
  have hcharacter : s.context.character = [d] :=
    congrArg Option.toList ((character?_of_stands hs).trans hd)
  rw [dispatchBy_eq]
  refine .read ?_
  rw [hframe, hcharacter]
  exact next

/-- A state whose value is found unfinished stays; a strict run ends. -/
theorem ends_notFinished {F : Fault → Session σ τ → Prop} {x : σ} {outer : List σ}
    (delimiter : Text) (hs : s.Stands J f location (x :: outer))
    (strict : s.context.strict = true → ∀ start, F (.format (.valueNotFinished delimiter start)) s) :
    Ends F (fun _ t => t.Stands J f location (x :: outer)) (notFinished delimiter) s := by
  obtain ⟨frame, hframe, -⟩ := Context.frame?_of_active hs.active_eq
  have h := frame_apply s
  rw [hframe] at h
  refine Ends.bind (R := fun _ t => t = s) (.of_ok h rfl) fun frame t ht => ?_
  subst ht
  exact .complain (fun strictly => strict strictly _) fun _ =>
    ⟨hs.footing_eq, hs.location_eq, hs.active_eq, hs.kept⟩

/-! ### Actions -/

/-- A listener that keeps step governs the sessions that stand where they are. -/
theorem governs_of_steady (steady : L.Steady guard reads (f.character? location) J E) :
    Governs G L { guard := guard, reads := reads } (f.character? location)
      (fun active s => s.Stands J f location active) (Fails E f.strict) where
  active_eq hs := hs.active_eq
  character_eq hs := character?_of_stands hs
  literal _ _ := trivial
  enters {x outer s} hguard hs := by
    refine (ends_opening x hs ⟨.format rfl fun _ => rfl, steady.sound hs.kept⟩).bind fun _ t ht => ?_
    refine (Leaves.tell steady.sound ht (steady.entered (character?_of_stands ht) ht.active_eq
      hguard ht.kept)).mono (fun _ _ h => h) fun _ u hu => ?_
    exact ⟨hu.1, hu.2, hu.3, hu.kept⟩
  leaves hguard hs := by
    refine (Leaves.tell steady.sound hs (steady.leaving (character?_of_stands hs) hs.active_eq
      hguard hs.kept)).bind fun _ t ht => ?_
    exact ends_closing ⟨ht.1, ht.2, ht.3, ht.kept⟩
  tells {signal active s} hstill hguard hs := by
    have hkept : J s.context.active s.gathered := hs.active_eq ▸ hs.kept
    have hallowed : guard signal s.context.active := hs.active_eq ▸ hguard
    have hkeeps : (L.hear signal s.context s.gathered).Keeps s.context.strict E
        (J s.context.active) := by
      cases signal with
      | content => exact steady.content hallowed hkept
      | itemEnd => exact steady.itemEnd hallowed hkept
      | nameEnd => exact steady.nameEnd hallowed hkept
      | entered x => cases hstill
      | leaving x => cases hstill
    refine (Leaves.tell steady.sound hs hkeeps).mono (fun _ _ h => h) fun _ t ht =>
      ⟨ht.1, ht.2, ht.3, ?_⟩
    exact hs.active_eq ▸ ht.kept
  complains {x outer s} delimiter _ hs := by
    have hstrict : s.context.strict = f.strict := congrArg Footing.strict hs.footing_eq
    refine ends_notFinished delimiter hs fun strictly start =>
      ⟨.format rfl fun hl => ?_, steady.sound hs.kept⟩
    rw [← hstrict, strictly] at hl
    cases hl
  places hreads hs := steady.place hreads hs.kept

section

variable (steady : L.Steady guard reads (f.character? location) J E)
include steady

/-- A secure action leaves the line and the cursor alone and ends with the active states that it
should end with, or with an error about the line. -/
theorem Settles.act {action : Action σ}
    (h : Secure G guard reads (f.character? location) actionLimit action Q active)
    (hs : s.Stands J f location active) : Settles J E f location Q (act G L action) s :=
  (governs_of_steady steady).act h hs

theorem Settles.enter {x : σ}
    (h : Secure.enterBy G guard (Secure G guard reads (f.character? location) actionLimit) x Q
      active)
    (hs : s.Stands J f location active) : Settles J E f location Q (enter G L x) s :=
  (governs_of_steady steady).enter h hs

theorem Settles.dispatch
    (h : Secure.dispatchBy G (f.character? location)
      (Secure G guard reads (f.character? location) actionLimit) Q active)
    (hs : s.Stands J f location active) : Settles J E f location Q (dispatch G L) s :=
  (governs_of_steady steady).dispatch h hs

end
end Machine
end
end CommandLine
