/-
# `CommandLine.Proofs.Quiet` — runs that nobody interrupts

A listener is *quiet* if it accepts whatever it is told while arguments are read; the reader of a
command line is, with any handler that accepts what belongs neither to an address nor to a name
(`Reader.quiet_listener`).  With a quiet listener an action does no more than enter and leave
states.

What is to be known of such a session are its footing, the cursor, the error that it remembers and
the active states with the places where they were entered (`Session.Poised`): the frames follow from
those places.
-/
import CommandLine.Proofs.Records
import CommandLine.Proofs.Scenes

namespace CommandLine

open Text

/-! ## Sessions and the places where states were entered -/

/-- Expressions are resolved in the scope of the innermost state. -/
def Graph.expressionsIn {σ : Type} (G : Graph σ) : List σ → Bool
  | [] => true
  | x :: outer => (G x).expressions.getD (G.expressionsIn outer)

/-- The frames of states that were entered at some places, the innermost first. -/
def Graph.frames {σ : Type} (G : Graph σ) : List (σ × Nat) → List (Frame σ)
  | [] => []
  | (x, place) :: outer =>
    { state := x, location := place
      escapes := G.escapesIn (x :: outer.map Prod.fst)
      expressions := G.expressionsIn (x :: outer.map Prod.fst) } :: G.frames outer

/-- While arguments are read the state can be active. -/
def StateName.readsArguments : StateName → Bool
  | argumentList | argument | nameValueSeparator | argumentValue | outputTarget
  | brackets | parentheses | braces | quotes | backQuotes | escape => true
  | _ => false

section

variable {τ : Type}

/-- The listener accepts whatever it is told while arguments are read. -/
structure Listener.Quiet (L : Listener StateName τ) : Prop where
  entered : ∀ {x c g}, x.readsArguments = true → (L.hear (.entered x) c g).verdict = .accept
  leaving : ∀ {x c g}, x.readsArguments = true → (L.hear (.leaving x) c g).verdict = .accept
  content : ∀ {c g}, (L.hear .content c g).verdict = .accept

/-- The session stands at a location, with states that were entered at some places, the innermost
first, and with the error that it remembers. -/
structure Session.Poised (f : Footing) (location : Nat) (error : Option FormatError)
    (entered : List (StateName × Nat)) (s : Session StateName τ) : Prop where
  footing_eq : s.context.footing = f
  location_eq : s.context.location = location
  error_eq : s.context.error = error
  limit_eq : s.context.stack.maxDepth = f.settings.maxDepth
  frames_eq : s.context.stack.frames = grammar.frames entered
  room : entered ≠ [] → (entered.length : Int) ≤ f.settings.maxDepth

namespace Session.Poised

open Machine

variable {L : Listener StateName τ} {f : Footing} {location place place' : Nat}
  {error : Option FormatError} {x y : StateName} {entered outer : List (StateName × Nat)}
  {s : Session StateName τ} {F : Fault → Session StateName τ → Prop}

theorem length_frames (entered : List (StateName × Nat)) :
    (grammar.frames entered).length = entered.length := by
  induction entered with
  | nil => rfl
  | cons first outer ih => exact congrArg (· + 1) ih

theorem depth (h : s.Poised f location error entered) :
    s.context.stack.depth = entered.length := by
  rw [Stack.depth, h.frames_eq, length_frames]

theorem escapesEnabled (h : s.Poised f location error entered) :
    s.context.escapesEnabled = grammar.escapesIn (entered.map Prod.fst) := by
  rw [Context.escapesEnabled, Context.frame?, Stack.top?, h.frames_eq]
  cases entered <;> rfl

theorem expressionsEnabled (h : s.Poised f location error entered) :
    s.context.expressionsEnabled = grammar.expressionsIn (entered.map Prod.fst) := by
  rw [Context.expressionsEnabled, Context.frame?, Stack.top?, h.frames_eq]
  cases entered <;> rfl

theorem character? (h : s.Poised f location error entered) :
    s.context.character? = f.character? location := by
  rw [← h.footing_eq, ← h.location_eq]
  rfl

/-- The innermost frame. -/
theorem frame? (h : s.Poised f location error ((x, place) :: outer)) :
    ∃ frame, s.context.frame? = some frame ∧ frame.state = x ∧ frame.location = place := by
  rw [Context.frame?, Stack.top?, h.frames_eq]
  exact ⟨_, rfl, rfl, rfl⟩

theorem frame?_nil (h : s.Poised f location error []) : s.context.frame? = none := by
  rw [Context.frame?, Stack.top?, h.frames_eq]
  rfl

theorem active (h : s.Poised f location error entered) :
    s.context.active = entered.map Prod.fst := by
  rw [Context.active, h.frames_eq]
  clear h
  induction entered with
  | nil => rfl
  | cons first outer ih => exact congrArg (first.1 :: ·) ih

/-! ### Actions that nobody is told of -/

section

variable {Q : Session StateName τ → Prop} {n : Nat}

/-- Where escapes are enabled a backslash enters its state. -/
theorem escape (h : s.Poised f location error entered)
    (hescapes : grammar.escapesIn (entered.map Prod.fst) = true)
    (next : Ends F (fun _ => Q) (actUpTo grammar L (n + 1) (.enter x)) s) :
    Ends F (fun _ => Q) (actUpTo grammar L (n + 1) (.escape x)) s := by
  refine .read ?_
  rw [h.escapesEnabled, hescapes, if_pos rfl]
  exact next

theorem dispatchBy {d : Char} (h : s.Poised f location error ((x, place) :: outer))
    (hd : f.character? location = some d)
    (next : Ends F (fun _ => Q) (actUpTo grammar L n ((grammar x).actionFor [d])) s) :
    Ends F (fun _ => Q) (dispatchBy grammar (actUpTo grammar L n)) s := by
  obtain ⟨frame, hframe, rfl, -⟩ := h.frame?
  rw [dispatchBy_eq]
  refine .read ?_
  rw [hframe, Context.character, h.character?, hd]
  exact next

end
end Session.Poised
end

/-! ## Readers of arguments -/

namespace Reading

variable {α β : Type}

/-- The program goes through. -/
def Completes (p : Reading α) : Prop := ∀ w, ∃ a w', p w = .ok a w'

namespace Completes

theorem pure (a : α) : Completes (pure a) := fun w => ⟨a, w, rfl⟩

theorem report (event : Event) : Completes (report event) := fun _ => ⟨_, _, rfl⟩

theorem update (change : Reader → Reader) : Completes (update change) := fun _ => ⟨_, _, rfl⟩

theorem mapTokens (change : Tokens → Tokens) : Completes (mapTokens change) := update _

theorem get : Completes get := fun w => ⟨w, w, rfl⟩

theorem tokens : Completes tokens := fun w => ⟨_, w, rfl⟩

theorem take : Completes take := fun _ => ⟨_, _, rfl⟩

theorem bind {p : Reading α} {k : α → Reading β} (hp : Completes p) (hk : ∀ a, Completes (k a)) :
    Completes (p >>= k) := by
  intro w
  obtain ⟨a, w', h⟩ := hp w
  rw [bind_apply, h]
  exact hk a w'

theorem ite {c : Prop} [Decidable c] {p q : Reading α} (hp : Completes p) (hq : Completes q) :
    Completes (if c then p else q) := by
  split
  · exact hp
  · exact hq

variable (c : Context StateName)

theorem argumentGap : Completes (argumentGap c) := .ite (.report _) (.pure _)

theorem argumentDone : Completes (argumentDone c) := by
  have rest : Completes (do
      Reading.argumentGap c
      Reading.mapTokens Tokens.clear) := (argumentGap c).bind fun _ => .mapTokens _
  refine tokens.bind fun t => ?_
  split
  · exact take.bind fun _ => (report _).bind fun _ => rest
  · exact take.bind fun _ => (report _).bind fun _ => rest
  · exact ((report _).bind fun _ => .report _).bind fun _ => rest

theorem argumentValueDone : Completes (argumentValueDone c) :=
  .ite (take.bind fun _ => tokens.bind fun _ => (report _).bind fun _ =>
    (argumentGap c).bind fun _ => .mapTokens _) (.pure _)

theorem outputTargetDone : Completes outputTargetDone :=
  take.bind fun _ => tokens.bind fun _ => (report _).bind fun _ => .mapTokens _

/-- Where arguments are read, entering a state finds no fault with the line. -/
theorem entered {x : StateName} (hx : x.readsArguments = true) : Completes (entered c x) := by
  cases x with
  | argumentList => exact .ite (.report _) (.pure _)
  | argument | outputTarget => exact .mapTokens fun _ => Tokens.startAt c.location
  | nameValueSeparator => exact take.bind fun _ => .mapTokens _
  | argumentValue => exact .ite ((mapTokens _).bind fun _ => .mapTokens _) (.mapTokens _)
  | brackets | parentheses | braces | quotes | backQuotes | escape => exact .pure _
  | _ => cases hx

theorem leaving {x : StateName} (hx : x.readsArguments = true) : Completes (leaving c x) := by
  cases x with
  | argument => exact argumentDone c
  | argumentValue => exact argumentValueDone c
  | outputTarget => exact outputTargetDone
  | argumentList | nameValueSeparator | brackets | parentheses | braces | quotes | backQuotes
  | escape => exact .pure _
  | _ => cases hx

end Completes
end Reading

theorem StateName.partOf_eq_rest {x : StateName} (hx : x.readsArguments = true) :
    Reading.partOf (.entered x) = .rest ∧ Reading.partOf (.leaving x) = .rest := by
  cases x <;> first | exact ⟨rfl, rfl⟩ | cases hx

section

variable {η : Type} {handler : Handler η}

/-- The handler accepts whatever a line reports that is neither an address nor a name. -/
def Handler.AcceptsRest (handler : Handler η) : Prop :=
  ∀ (event : Event) (gathered : η), event.part = .rest → (handler event gathered).2 = .ok ()

theorem Command.acceptsRest_handler : Command.handler.AcceptsRest := by
  intro event c h
  cases event <;> first | rfl | cases h

theorem Reader.deliver_of_acceptsRest (accepts : handler.AcceptsRest)
    {reports : List (Event × Reader)} (hreports : ∀ r ∈ reports, r.1.part = .rest) (gathered : η) :
    (deliver handler reports gathered).2 = none := by
  induction reports generalizing gathered with
  | nil => rfl
  | cons report rest ih =>
    obtain ⟨event, kept⟩ := report
    have hevent : handler event gathered = ((handler event gathered).1, .ok ()) :=
      Prod.ext rfl (accepts event gathered (hreports _ List.mem_cons_self))
    rw [deliver, hevent]
    exact ih (fun r hr => hreports r (List.mem_cons_of_mem _ hr)) _

/-- A reader finds no fault with arguments. -/
theorem Reader.quiet_listener (accepts : handler.AcceptsRest) : (listener handler).Quiet := by
  have accepted {signal : Signal StateName} (c : Context StateName) (g : Reader × η)
      (hpart : Reading.partOf signal = .rest)
      (completes : Reading.Completes (Reading.signal c signal)) :
      ((listener handler).hear signal c g).verdict = .accept := by
    obtain ⟨_, work, hwork⟩ := completes { reader := g.1 }
    have hadds := Reading.Reports.signal c signal { reader := g.1 }
    rw [hwork] at hadds
    obtain ⟨reports, hreports, htells⟩ := hadds
    have hdelivered : (deliver handler work.reports g.2).2 = none := by
      refine deliver_of_acceptsRest accepts (fun r hr => ?_) g.2
      rw [hreports] at hr
      exact (htells r hr).part_eq.trans hpart
    unfold listener hear
    dsimp only
    rw [hwork]
    dsimp only
    cases hd : deliver handler work.reports g.2 with
    | mk rest refusal =>
      rw [hd] at hdelivered
      cases hdelivered
      rfl
  exact {
    entered := fun hx => accepted _ _ (StateName.partOf_eq_rest hx).1 (.entered _ hx)
    leaving := fun hx => accepted _ _ (StateName.partOf_eq_rest hx).2 (.leaving _ hx)
    content := fun {c _} => accepted c _ rfl (.mapTokens (·.append c.character)) }

end

end CommandLine
