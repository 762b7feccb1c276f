/-
# `CommandLine.Proofs.Scenes` — a strict run without substitution as a function

A strict run that replaces nothing has little to remember.  Its *scene* is the list of active
states, the innermost first, with what the listener has gathered, or a sketch of that; its *spot*
is the text before and after the cursor.  Everything an action reads is there, so that what it
does to a scene can be said without the machine: `Scene.act` gives the next scene, and nothing
where the run ends with an error.

    Scene.act      what an action does, and all that it sets off
    Scene.handle   what a character does
    Scene.walk     what a stretch of text does, given the text after it
    Scene.finish   what the end of the line does

A listener is *sketched* by a reaction to signals if a sketch of what it gathers develops as the
reaction says (`Listener.SketchedBy`).  Then a session that shows a scene goes through exactly if
the scene goes on, and shows the next scene afterwards (`Machine.Mirrors.act`,
`Machine.Mirrors.walk`, `Machine.Mirrors.finish`).  The rules at the end say what the actions of the
grammars do, whatever is gathered.
-/
import CommandLine.Proofs.Transparency

namespace CommandLine

open Text

/-! ## Scenes -/

/-- A place in a text, and the number of states that can be active. -/
structure Spot where
  /-- The number of states that can be active at once. -/
  maxDepth : Int
  /-- The text before the cursor. -/
  before : Text
  /-- The text from the cursor on. -/
  rest : Text

namespace Spot

/-- The character under the cursor. -/
def character? (p : Spot) : Option Char := p.rest.head?

/-- Only gaps stand between the cursor and a separator. -/
def isBesideSeparator (p : Spot) (following preceding : Text) : Bool :=
  ((p.rest.drop 1).dropWhile isGap).head?.any following.contains ||
    (p.before.reverse.dropWhile isGap).head?.any preceding.contains

theorem isEmpty_rest {p : Spot} {d : Char} (hd : p.character? = some d) :
    p.rest.isEmpty = false :=
  List.isEmpty_eq_false_iff.2 (List.ne_nil_of_mem (List.mem_of_mem_head? hd))

end Spot

/-- What a run is doing: the active states, the innermost first, and what has been gathered. -/
structure Scene (σ τ : Type) where
  /-- The active states. -/
  active : List σ
  /-- What has been gathered. -/
  gathered : τ

/-- What signals do to what has been gathered, given the active states; nothing where a signal ends
the run. -/
abbrev Reaction (σ τ : Type) := Signal σ → List σ → τ → Option τ

/-- What has been gathered tells what can stand at the current place of a value, where values are
read. -/
class Placed (τ : Type) where
  /-- What can stand there. -/
  place? : τ → Option Place

/-- Escapes are enabled in the scope of the innermost state. -/
def Graph.escapesIn {σ : Type} (G : Graph σ) : List σ → Bool
  | [] => true
  | x :: outer => (G x).escapes.getD (G.escapesIn outer)

namespace Scene

variable {σ τ : Type} (G : Graph σ) (react : Spot → Reaction σ τ) (p : Spot)

/-- The scene after a signal. -/
def tell (signal : Signal σ) (sc : Scene σ τ) : Option (Scene σ τ) :=
  (react p signal sc.active sc.gathered).map (Scene.mk sc.active)

/-- Adds a state unless too many are active. -/
def opening (x : σ) (sc : Scene σ τ) : Option (Scene σ τ) :=
  if p.maxDepth ≤ sc.active.length then none else some ⟨x :: sc.active, sc.gathered⟩

/-- Takes the innermost state off. -/
def closing (sc : Scene σ τ) : Option (Scene σ τ) :=
  match sc.active with
  | [] => none
  | _ :: outer => some ⟨outer, sc.gathered⟩

section

variable (run : Action σ → Scene σ τ → Option (Scene σ τ))

/-- Enters a state; `run` performs its first action. -/
def enterBy (x : σ) (sc : Scene σ τ) : Option (Scene σ τ) := do
  let sc ← opening p x sc
  let sc ← tell react p (.entered x) sc
  run (G x).onEnter sc

/-- Lets the state go on that is innermost once another one has been left. -/
def returnBy (sc : Scene σ τ) : Option (Scene σ τ) :=
  match sc.active with
  | [] => some sc
  | x :: _ => run (G x).onReturn sc

/-- Takes the innermost state off and lets the one below go on. -/
def closeBy (sc : Scene σ τ) : Option (Scene σ τ) :=
  match sc.active with
  | [] => none
  | x :: _ => do
    let sc ← tell react p (.leaving x) sc
    let sc ← closing sc
    returnBy G run sc

/-- Leaves the innermost state. -/
def leaveBy (sc : Scene σ τ) : Option (Scene σ τ) :=
  match sc.active with
  | [] => none
  | x :: _ => do
    let sc ← run (G x).onLeave sc
    closeBy G react p run sc

/-- Performs the action of the innermost state for the character under the cursor. -/
def dispatchBy (sc : Scene σ τ) : Option (Scene σ τ) :=
  match sc.active with
  | [] => none
  | x :: _ => run ((G x).actionFor p.character?.toList) sc

variable [Placed τ]

/-- Performs one action; `run` performs the actions that it sets off. -/
def perform (action : Action σ) (sc : Scene σ τ) : Option (Scene σ τ) :=
  match action with
  | .skip => some sc
  | .content => tell react p .content sc
  | .leave => leaveBy G react p run sc
  | .contentAndLeave => do
    let sc ← tell react p .content sc
    leaveBy G react p run sc
  | .dispatch => dispatchBy G p run sc
  | .enter x => enterBy G react p run x sc
  | .escape x =>
    if G.escapesIn sc.active then enterBy G react p run x sc else tell react p .content sc
  | .chain actions => actions.foldlM (fun sc a => run a sc) sc
  | .besideSeparator following preceding otherwise =>
    if p.isBesideSeparator following preceding then some sc else run otherwise sc
  | .leaveOnGap => if p.character?.any isGap then leaveBy G react p run sc else some sc
  | .leaveOn characters =>
    if p.character?.any characters.contains then leaveBy G react p run sc else some sc
  | .enterUnlessEnd x => if p.rest.isEmpty then some sc else enterBy G react p run x sc
  | .startValue x => do
    let place ← Placed.place? sc.gathered
    if place.startsValue then enterBy G react p run x sc else tell react p .content sc
  | .startBraces object bytes => do
    let place ← Placed.place? sc.gathered
    if place.startsValue then enterBy G react p run object sc
    else if place.opensBytes then enterBy G react p run bytes sc
    else tell react p .content sc
  | .endItem => do
    let _ ← Placed.place? sc.gathered
    tell react p .itemEnd sc
  | .endName => do
    let place ← Placed.place? sc.gathered
    let sc ← tell react p .nameEnd sc
    if place.endsName then some sc else tell react p .content sc
  | .undefined | .notFinished _ | .configure _ _ => none

end

variable [Placed τ]

/-- Performs an action that sets off others at most `limit` deep. -/
def actUpTo : Nat → Action σ → Scene σ τ → Option (Scene σ τ)
  | 0 => fun _ _ => none
  | limit + 1 => perform G react p (actUpTo limit)

/-- Performs an action and all that it sets off. -/
def act (action : Action σ) (sc : Scene σ τ) : Option (Scene σ τ) :=
  actUpTo G react p Machine.actionLimit action sc

/-- Enters a state. -/
def enter (x : σ) (sc : Scene σ τ) : Option (Scene σ τ) := enterBy G react p (act G react p) x sc

/-- Leaves the innermost state. -/
def leave (sc : Scene σ τ) : Option (Scene σ τ) := leaveBy G react p (act G react p) sc

/-- Handles the character under the cursor. -/
def handle (sc : Scene σ τ) : Option (Scene σ τ) := dispatchBy G p (act G react p) sc

/-- Tells the innermost state that the line has ended. -/
def endState (sc : Scene σ τ) : Option (Scene σ τ) :=
  match sc.active with
  | [] => none
  | x :: _ => act G react p (G x).onEnd sc

/-- Reads a text after another one and before a third one. -/
def walk (maxDepth : Int) : (before text after : Text) → Scene σ τ → Option (Scene σ τ)
  | _, [], _, sc => some sc
  | before, d :: text, after, sc => do
    let sc ← handle G react ⟨maxDepth, before, d :: (text ++ after)⟩ sc
    walk maxDepth (before ++ [d]) text after sc

/-- Ends and leaves all states but the outermost one, in at most `limit` rounds. -/
def unwind : Nat → Scene σ τ → Option (Scene σ τ)
  | 0, sc => if 1 < sc.active.length then none else some sc
  | limit + 1, sc =>
    if 1 < sc.active.length then do
      let sc ← endState G react p sc
      let sc ← if 1 < sc.active.length then leave G react p sc else some sc
      unwind limit sc
    else some sc

/-- Ends and leaves all states. -/
def finish (sc : Scene σ τ) : Option (Scene σ τ) := do
  let sc ← unwind G react p (sc.active.length + p.maxDepth.toNat + 1000) sc
  let sc ← if 0 < sc.active.length then endState G react p sc else some sc
  if 0 < sc.active.length then leave G react p sc else some sc

/-- What is gathered from a text, read from an initial state on. -/
def read (maxDepth : Int) (initial : σ) (text : Text) (gathered : τ) : Option τ :=
  Option.map Scene.gathered do
    let sc ← enter G react ⟨maxDepth, [], text⟩ initial ⟨[], gathered⟩
    let sc ← walk G react maxDepth [] text [] sc
    finish G react ⟨maxDepth, text, []⟩ sc

/-- A text is read by entering the initial state, walking along the text and leaving all states. -/
theorem read_eq_some {maxDepth : Int} {initial : σ} {text : Text} {gathered : τ}
    {first last ended : Scene σ τ}
    (henter : enter G react ⟨maxDepth, [], text⟩ initial ⟨[], gathered⟩ = some first)
    (hwalk : walk G react maxDepth [] text [] first = some last)
    (hfinish : finish G react ⟨maxDepth, text, []⟩ last = some ended) :
    read G react maxDepth initial text gathered = some ended.gathered := by
  simp only [read, henter, hwalk, hfinish, Option.bind_eq_bind, Option.bind_some, Option.map_some]

/-- A walk goes over one text and then over the next one. -/
theorem walk_append (maxDepth : Int) (before first second after : Text) (sc : Scene σ τ) :
    walk G react maxDepth before (first ++ second) after sc =
      (walk G react maxDepth before first (second ++ after) sc).bind
        (walk G react maxDepth (before ++ first) second after) := by
  induction first generalizing before sc with
  | nil => simp [walk]
  | cons d first ih =>
    rw [List.cons_append, walk, walk, List.append_assoc]
    cases handle G react ⟨maxDepth, before, d :: (first ++ (second ++ after))⟩ sc with
    | none => rfl
    | some next =>
      show walk G react maxDepth (before ++ [d]) (first ++ second) after next = _
      rw [ih, List.append_assoc]
      rfl

end Scene

/-! ## Sessions that show a scene -/

/-- Each frame has the escapes of its scope. -/
def Graph.Scoped {σ : Type} (G : Graph σ) : List (Frame σ) → Prop
  | [] => True
  | f :: outer => f.escapes = G.escapesIn (f.state :: outer.map Frame.state) ∧ G.Scoped outer

section

variable {σ τ υ : Type}

/-- The context is that of a strict run without substitution, at a spot and with active states. -/
structure Context.Shows (G : Graph σ) (p : Spot) (active : List σ) (c : Context σ) : Prop where
  strict : c.strict = true
  plain : c.settings.substitutes = false
  limit : c.settings.maxDepth = p.maxDepth
  room : c.stack.maxDepth = p.maxDepth
  line : c.line = Line.ofText (p.before ++ p.rest)
  location : c.location = p.before.length
  active : c.active = active
  error : c.error = none
  scopes : G.Scoped c.stack.frames

namespace Context.Shows

variable {G : Graph σ} {p : Spot} {active : List σ} {c : Context σ}

theorem input (h : c.Shows G p active) : c.input = p.before ++ p.rest := by
  rw [Context.input, h.line]
  rfl

theorem character? (h : c.Shows G p active) : c.character? = p.character? := by
  rw [Context.character?, h.input, h.location, List.getElem?_append_right (Nat.le_refl _),
    Nat.sub_self, ← List.head?_eq_getElem?]
  rfl

theorem atEnd (h : c.Shows G p active) : c.atEnd = p.rest.isEmpty := by
  rw [Context.atEnd_eq_isNone, h.character?, Spot.character?]
  cases p.rest <;> rfl

theorem isBesideSeparator (h : c.Shows G p active) (following preceding : Text) :
    c.isBesideSeparator following preceding = p.isBesideSeparator following preceding := by
  rw [Context.isBesideSeparator, Context.nextSolid?, Context.lastSolid?, h.input, h.location,
    List.take_left, ← List.drop_drop, List.drop_left]
  rfl

theorem depth (h : c.Shows G p active) : c.stack.depth = active.length := by
  rw [← h.active, Context.active, List.length_map]
  rfl

theorem escapesEnabled (h : c.Shows G p active) : c.escapesEnabled = G.escapesIn active := by
  have hscoped := h.scopes
  rw [← h.active, Context.active, Context.escapesEnabled, Context.frame?, Stack.top?]
  cases hframes : c.stack.frames with
  | nil => rfl
  | cons f outer =>
    rw [hframes] at hscoped
    exact hscoped.1

/-- A frame is pushed. -/
theorem push {x : σ} {stack : Stack σ} (h : c.Shows G p active)
    (hpush : c.stack.push (c.frameFor x (G x)) = .ok stack) :
    ({ c with stack := stack }.markValue (G x)).Shows G p (x :: active) := by
  have hactive := Context.active_of_push hpush
  have hescapes := h.escapesEnabled
  unfold Stack.push at hpush
  split at hpush
  · cases hpush
  · cases hpush
    rw [Context.markValue_eq]
    refine ⟨h.strict, h.plain, h.limit, h.room, h.line, h.location, ?_, h.error, ?_, h.scopes⟩
    · exact hactive.trans (congrArg (x :: ·) h.active)
    · show (G x).escapes.getD c.escapesEnabled = (G x).escapes.getD (G.escapesIn c.active)
      rw [hescapes, h.active]

/-- The innermost frame is popped. -/
theorem pop {x : σ} {frame : Frame σ} {stack : Stack σ} (h : c.Shows G p (x :: active))
    (hpop : c.stack.pop = .ok (frame, stack)) :
    ({ c with stack := stack }.unlockValue).Shows G p active := by
  have hactive := (Context.active_of_pop hpop).symm.trans h.active
  have hscoped := h.scopes
  unfold Stack.pop at hpop
  split at hpop
  · cases hpop
  · next first rest hframes =>
    cases hpop
    rw [hframes] at hscoped
    rw [Context.unlockValue_eq]
    exact ⟨h.strict, h.plain, h.limit, h.room, h.line, h.location, (List.cons.inj hactive).2,
      h.error, hscoped.2⟩

/-- The cursor moves over a character. -/
theorem advance {maxDepth : Int} {before rest : Text} {d : Char}
    (h : c.Shows G ⟨maxDepth, before, d :: rest⟩ active) :
    ({ c with location := c.location + 1 } : Context σ).Shows G ⟨maxDepth, before ++ [d], rest⟩
      active := by
  refine ⟨h.strict, h.plain, h.limit, h.room, ?_, ?_, h.active, h.error, h.scopes⟩
  · rw [List.append_assoc]
    exact h.line
  · rw [List.length_append]
    exact congrArg (· + 1) h.location

end Context.Shows

/-- A sketch of what the listener gathers develops as the reaction says, and tells what can stand at
the current place. -/
structure Listener.SketchedBy [Placed υ] (L : Listener σ τ) (G : Graph σ) (sketch : τ → υ)
    (react : Spot → Reaction σ υ) : Prop where
  accepted : ∀ {p : Spot} {active : List σ} {c : Context σ} (signal : Signal σ) (g : τ),
    c.Shows G p active → (L.hear signal c g).verdict = .accept →
    react p signal active (sketch g) = some (sketch (L.hear signal c g).gathered)
  refused : ∀ {p : Spot} {active : List σ} {c : Context σ} (signal : Signal σ) (g : τ),
    c.Shows G p active → (L.hear signal c g).verdict ≠ .accept →
    react p signal active (sketch g) = none
  place : ∀ g : τ, (L.place g).toOption = Placed.place? (sketch g)

/-- The session shows the scene at a spot. -/
structure Session.Shows (G : Graph σ) (sketch : τ → υ) (p : Spot) (sc : Scene σ υ)
    (s : Session σ τ) : Prop where
  context : s.context.Shows G p sc.active
  gathered : sketch s.gathered = sc.gathered

namespace Machine

variable {α β : Type} {G : Graph σ} {L : Listener σ τ} {sketch : τ → υ}
  {react : Spot → Reaction σ υ} {p : Spot} {sc : Scene σ υ} {s : Session σ τ}

/-- The program goes through exactly if the scene goes on, and the session that it leaves behind
shows the next scene. -/
def Mirrors (G : Graph σ) (sketch : τ → υ) (p : Spot) (m : Machine σ τ α) (s : Session σ τ)
    (next : Option (Scene σ υ)) : Prop :=
  match m s, next with
  | .ok _ t, some sc => t.Shows G sketch p sc
  | .error _ _, none => True
  | _, _ => False

namespace Mirrors

theorem of_ok {m : Machine σ τ α} {a : α} {t : Session σ τ} (h : m s = .ok a t)
    (ht : t.Shows G sketch p sc) : Mirrors G sketch p m s (some sc) := by
  unfold Mirrors
  rw [h]
  exact ht

theorem of_error {m : Machine σ τ α} {fault : Fault} {t : Session σ τ}
    (h : m s = .error fault t) : Mirrors (υ := υ) G sketch p m s none := by
  unfold Mirrors
  rw [h]
  trivial

theorem pure {a : α} (h : s.Shows G sketch p sc) :
    Mirrors G sketch p (pure a : Machine σ τ α) s (some sc) := h

theorem bind {q : Spot} {m : Machine σ τ α} {k : α → Machine σ τ β} {next : Option (Scene σ υ)}
    {later : Scene σ υ → Option (Scene σ υ)} (hm : Mirrors G sketch p m s next)
    (hk : ∀ a t sc, t.Shows G sketch p sc → Mirrors G sketch q (k a) t (later sc)) :
    Mirrors G sketch q (m >>= k) s (next.bind later) := by
  unfold Mirrors at hm
  cases h : m s with
  | ok a t =>
    cases next with
    | none => rw [h] at hm; exact hm.elim
    | some sc =>
      rw [h] at hm
      have := hk a t sc hm
      unfold Mirrors at this ⊢
      rw [bind_apply_of_ok h]
      exact this
  | error fault t =>
    cases next with
    | none => exact of_error (bind_apply_of_error h k)
    | some sc => rw [h] at hm; exact hm.elim

theorem read {k : Context σ → Machine σ τ β} {next : Option (Scene σ υ)}
    (h : Mirrors G sketch p (k s.context) s next) : Mirrors G sketch p (context >>= k) s next := h

theorem discard {m : Machine σ τ α} {next : Option (Scene σ υ)}
    (h : Mirrors G sketch p m s next) : Mirrors G sketch p (Functor.discard m) s next := by
  rw [discard_eq, ← Option.bind_fun_some next]
  exact h.bind fun _ _ _ ht => ht

theorem complain {e : FormatError} (h : s.Shows G sketch p sc) :
    Mirrors (υ := υ) G sketch p (complain e) s none :=
  of_error (by rw [complain_apply, h.context.strict]; rfl)

theorem notFinished (delimiter : Text) (h : s.Shows G sketch p sc) :
    Mirrors (υ := υ) G sketch p (notFinished delimiter) s none := by
  rw [Machine.notFinished, frame_bind_eq]
  refine read ?_
  cases s.context.frame? with
  | none => exact of_error rfl
  | some f => exact complain h

section

variable [Placed υ] (hL : L.SketchedBy G sketch react)
include hL

theorem tell (signal : Signal σ) (h : s.Shows G sketch p sc) :
    Mirrors G sketch p (tell L signal) s (Scene.tell react p signal sc) := by
  have htell := tell_apply L signal s
  rw [Scene.tell, ← h.gathered]
  cases hv : (L.hear signal s.context s.gathered).verdict with
  | accept =>
    rw [hv] at htell
    rw [hL.accepted signal s.gathered h.context hv]
    exact of_ok htell ⟨h.context, rfl⟩
  | complain e =>
    rw [hv] at htell
    rw [hL.refused signal s.gathered h.context (by rw [hv]; nofun)]
    have hcomplain := complain_apply e (heard L signal s)
    rw [show (heard L signal s).context = s.context from rfl, h.context.strict] at hcomplain
    exact of_error (htell.trans hcomplain)
  | refuse fault =>
    rw [hv] at htell
    rw [hL.refused signal s.gathered h.context (by rw [hv]; nofun)]
    exact of_error htell

/-- What the listener says about the current place. -/
theorem place {k : Place → Machine σ τ β} {later : Place → Option (Scene σ υ)}
    (h : s.Shows G sketch p sc) (hk : ∀ place, Mirrors G sketch p (k place) s (later place)) :
    Mirrors G sketch p (place L >>= k) s ((Placed.place? sc.gathered).bind later) := by
  have hplace := place_apply L s
  rw [← h.gathered, ← hL.place]
  cases hsaid : L.place s.gathered with
  | ok place =>
    rw [hsaid] at hplace
    have hmirrors := hk place
    unfold Mirrors at hmirrors ⊢
    rw [bind_apply_of_ok hplace]
    exact hmirrors
  | error d =>
    rw [hsaid] at hplace
    exact of_error (bind_apply_of_error hplace k)

end

/-- A frame is pushed if there is room for it. -/
theorem opening (x : σ) (h : s.Shows G sketch p sc) :
    Mirrors G sketch p (opening G x) s (Scene.opening p x sc) := by
  have hopening := opening_apply G x s
  rw [Scene.opening]
  cases hpush : s.context.stack.push (s.context.frameFor x (G x)) with
  | ok stack =>
    have hroom : ¬ p.maxDepth ≤ sc.active.length := by
      rw [← h.context.room, ← h.context.depth]
      unfold Stack.push at hpush
      split at hpush
      · cases hpush
      · assumption
    rw [hpush] at hopening
    rw [if_neg hroom]
    exact of_ok hopening ⟨h.context.push hpush, h.gathered⟩
  | error e =>
    have hfull : p.maxDepth ≤ sc.active.length := by
      rw [← h.context.room, ← h.context.depth]
      unfold Stack.push at hpush
      split at hpush
      · assumption
      · cases hpush
    rw [hpush] at hopening
    rw [if_pos hfull]
    exact of_error hopening

/-- The innermost frame is popped if there is one. -/
theorem closing (h : s.Shows G sketch p sc) :
    Mirrors G sketch p closing s (Scene.closing sc) := by
  have hclosing := closing_apply s
  have hshown := h.context
  rw [Scene.closing]
  cases hpop : s.context.stack.pop with
  | ok popped =>
    rw [hpop] at hclosing
    have hactive := hshown.active
    rw [Context.active_of_pop hpop] at hactive
    rw [← hactive] at hshown ⊢
    exact of_ok hclosing ⟨hshown.pop hpop, h.gathered⟩
  | error d =>
    rw [hpop] at hclosing
    have hactive := hshown.active
    unfold Stack.pop at hpop
    split at hpop
    · next hframes =>
      rw [Context.active, hframes] at hactive
      rw [← hactive]
      exact of_error hclosing
    · cases hpop

/-! ### Actions -/

theorem frame_of_shows {x : σ} {outer : List σ} (h : s.Shows G sketch p sc)
    (hactive : sc.active = x :: outer) :
    ∃ frame, s.context.frame? = some frame ∧ frame.state = x :=
  Context.frame?_of_active (h.context.active.trans hactive)

section

variable [Placed υ] {run : Action σ → Machine σ τ Unit}
  {later : Action σ → Scene σ υ → Option (Scene σ υ)}
  {K : Action σ → Prop} (hL : L.SketchedBy G sketch react)
  (hrun : ∀ (a : Action σ) (s : Session σ τ) (sc : Scene σ υ), K a → s.Shows G sketch p sc →
    Mirrors G sketch p (run a) s (later a sc))

include hL hrun

theorem enterBy {x : σ} (hx : K (G x).onEnter) (h : s.Shows G sketch p sc) :
    Mirrors G sketch p (enterBy G L run x) s (Scene.enterBy G react p later x sc) := by
  rw [enterBy_eq]
  exact (opening x h).bind fun _ _ _ ht => (tell hL _ ht).bind fun _ _ _ hu => hrun _ _ _ hx hu

omit [Placed υ] hL in
theorem returnBy (hreturn : ∀ x, K (G x).onReturn) (h : s.Shows G sketch p sc) :
    Mirrors G sketch p (returnBy G run) s (Scene.returnBy G later sc) := by
  refine read ?_
  rw [Scene.returnBy]
  cases hactive : sc.active with
  | nil =>
    rw [Context.frame?_of_active_nil (h.context.active.trans hactive)]
    exact pure h
  | cons x outer =>
    obtain ⟨frame, hframe, rfl⟩ := frame_of_shows h hactive
    rw [hframe]
    exact hrun _ _ _ (hreturn _) h

theorem closeBy (hreturn : ∀ x, K (G x).onReturn) (h : s.Shows G sketch p sc) :
    Mirrors G sketch p (closeBy G L run) s (Scene.closeBy G react p later sc) := by
  rw [Machine.closeBy, frame_bind_eq, Scene.closeBy]
  refine read ?_
  cases hactive : sc.active with
  | nil =>
    rw [Context.frame?_of_active_nil (h.context.active.trans hactive)]
    exact of_error rfl
  | cons x outer =>
    obtain ⟨frame, hframe, rfl⟩ := frame_of_shows h hactive
    rw [hframe]
    exact (tell hL _ h).bind fun _ _ _ ht => (closing ht).bind fun _ _ _ hu =>
      returnBy hrun hreturn hu

theorem leaveBy (hleave : ∀ x, K (G x).onLeave) (hreturn : ∀ x, K (G x).onReturn)
    (h : s.Shows G sketch p sc) :
    Mirrors G sketch p (leaveBy G L run) s (Scene.leaveBy G react p later sc) := by
  rw [leaveBy_eq, Scene.leaveBy]
  refine read ?_
  cases hactive : sc.active with
  | nil =>
    rw [Context.frame?_of_active_nil (h.context.active.trans hactive)]
    exact of_error rfl
  | cons x outer =>
    obtain ⟨frame, hframe, rfl⟩ := frame_of_shows h hactive
    rw [hframe]
    refine (hrun _ _ _ (hleave _) h).bind fun _ t sc ht => ?_
    rw [← Option.bind_fun_some (Scene.closeBy G react p later sc)]
    exact (closeBy hL hrun hreturn ht).bind fun _ _ _ hu => pure hu

omit [Placed υ] hL in
theorem dispatchBy (hdispatch : ∀ x, K ((G x).actionFor p.character?.toList))
    (h : s.Shows G sketch p sc) :
    Mirrors G sketch p (dispatchBy G run) s (Scene.dispatchBy G p later sc) := by
  rw [dispatchBy_eq, Scene.dispatchBy]
  refine read ?_
  cases hactive : sc.active with
  | nil =>
    rw [Context.frame?_of_active_nil (h.context.active.trans hactive)]
    exact of_error rfl
  | cons x outer =>
    obtain ⟨frame, hframe, rfl⟩ := frame_of_shows h hactive
    rw [hframe, Context.character, h.context.character?]
    exact hrun _ _ _ (hdispatch _) h

omit [Placed υ] hL in
theorem forM {actions : List (Action σ)} (hactions : ∀ a ∈ actions, K a)
    (h : s.Shows G sketch p sc) :
    Mirrors G sketch p (actions.forM run) s (actions.foldlM (fun sc a => later a sc) sc) := by
  induction actions generalizing s sc with
  | nil => exact pure h
  | cons a rest ih =>
    rw [List.foldlM_cons]
    exact (hrun _ _ _ (hactions a List.mem_cons_self) h).bind fun _ _ _ ht =>
      ih (fun b hb => hactions b (List.mem_cons_of_mem _ hb)) ht

/-- An action other than the switch of a scope. -/
theorem perform {action : Action σ} (hclosed : ∀ b, action.SetsOff G b → K b)
    (hdispatch : action = .dispatch → ∀ x, K ((G x).actionFor p.character?.toList))
    (hscope : ∀ escapes expressions, action ≠ .configure escapes expressions)
    (h : s.Shows G sketch p sc) :
    Mirrors G sketch p (perform G L run action) s (Scene.perform G react p later action sc) := by
  have leaving (hmay : action.mayLeave = true) :
      Mirrors G sketch p (Functor.discard (Machine.leaveBy G L run)) s
        (Scene.leaveBy G react p later sc) :=
    (leaveBy hL hrun (fun x => hclosed _ (.last x hmay)) (fun x => hclosed _ (.returned x hmay))
      h).discard
  cases action with
  | skip => exact pure h
  | content => exact tell hL _ h
  | leave => exact leaving rfl
  | contentAndLeave =>
    refine (tell hL _ h).bind fun _ t sc ht => ?_
    exact (leaveBy hL hrun (fun x => hclosed _ (.last x rfl))
      (fun x => hclosed _ (.returned x rfl)) ht).discard
  | dispatch => exact dispatchBy hrun (hdispatch rfl) h
  | undefined => exact of_error rfl
  | enter x => exact enterBy hL hrun (hclosed _ (.first List.mem_cons_self)) h
  | escape x =>
    refine read ?_
    rw [h.context.escapesEnabled, Scene.perform]
    split
    · exact enterBy hL hrun (hclosed _ (.first List.mem_cons_self)) h
    · exact tell hL _ h
  | chain actions => exact forM hrun (fun a ha => hclosed _ (.chained ha)) h
  | notFinished delimiter => exact notFinished delimiter h
  | configure escapes expressions => exact absurd rfl (hscope _ _)
  | besideSeparator following preceding otherwise =>
    refine read ?_
    rw [h.context.isBesideSeparator, Scene.perform]
    split
    · exact pure h
    · exact hrun _ _ _ (hclosed _ .otherwise) h
  | leaveOnGap =>
    refine read ?_
    rw [h.context.character?, Scene.perform]
    split
    · exact leaving rfl
    · exact pure h
  | leaveOn characters =>
    refine read ?_
    rw [h.context.character?, Scene.perform]
    split
    · exact leaving rfl
    · exact pure h
  | enterUnlessEnd x =>
    refine read ?_
    rw [h.context.atEnd, Scene.perform]
    split
    · exact pure h
    · exact enterBy hL hrun (hclosed _ (.first List.mem_cons_self)) h
  | startValue x =>
    refine place hL h fun place => ?_
    split
    · exact enterBy hL hrun (hclosed _ (.first List.mem_cons_self)) h
    · exact tell hL _ h
  | startBraces object bytes =>
    refine place hL h fun place => ?_
    split
    · exact enterBy hL hrun (hclosed _ (.first List.mem_cons_self)) h
    · split
      · exact enterBy hL hrun
          (hclosed _ (.first (List.mem_cons_of_mem _ List.mem_cons_self))) h
      · exact tell hL _ h
  | endItem => exact place hL h fun _ => tell hL _ h
  | endName =>
    refine place hL h fun place => (tell hL _ h).bind fun _ t sc ht => ?_
    split
    · exact pure ht
    · exact tell hL _ ht

end

end Mirrors

/-- A class of actions that switch no scope, with all that they set off; it has every action of a
state. -/
structure Tame (G : Graph σ) (K : Action σ → Prop) : Prop where
  unscoped : ∀ escapes expressions, ¬ K (.configure escapes expressions)
  closed : ∀ {a b : Action σ}, K a → a.SetsOff G b → K b
  dispatched : ∀ x character, K ((G x).actionFor character)
  onEnter : ∀ x, K (G x).onEnter
  onReturn : ∀ x, K (G x).onReturn
  onLeave : ∀ x, K (G x).onLeave
  onEnd : ∀ x, K (G x).onEnd

namespace Mirrors

section

variable [Placed υ] {K : Action σ → Prop} (tame : Tame G K) (hL : L.SketchedBy G sketch react)
include tame hL

theorem actUpTo (limit : Nat) {action : Action σ} (ha : K action) (h : s.Shows G sketch p sc) :
    Mirrors G sketch p (actUpTo G L limit action) s (Scene.actUpTo G react p limit action sc) := by
  induction limit generalizing action s sc with
  | zero => exact of_error rfl
  | succ limit ih =>
    refine perform hL (fun a s sc ha h => ih ha h) (fun b hb => tame.closed ha hb)
      (fun _ x => tame.dispatched x _) (fun escapes expressions hscope => ?_) h
    exact tame.unscoped escapes expressions (hscope ▸ ha)

theorem act {action : Action σ} (ha : K action) (h : s.Shows G sketch p sc) :
    Mirrors G sketch p (act G L action) s (Scene.act G react p action sc) :=
  actUpTo tame hL _ ha h

theorem enter (x : σ) (h : s.Shows G sketch p sc) :
    Mirrors G sketch p (enter G L x) s (Scene.enter G react p x sc) :=
  enterBy hL (fun _ _ _ ha h => act tame hL ha h) (tame.onEnter x) h

theorem leave (h : s.Shows G sketch p sc) :
    Mirrors G sketch p (leave G L) s (Scene.leave G react p sc) :=
  leaveBy hL (fun _ _ _ ha h => act tame hL ha h) tame.onLeave tame.onReturn h

theorem dispatch (h : s.Shows G sketch p sc) :
    Mirrors G sketch p (dispatch G L) s (Scene.handle G react p sc) :=
  dispatchBy (fun _ _ _ ha h => act tame hL ha h) (fun x => tame.dispatched x _) h

theorem endState (h : s.Shows G sketch p sc) :
    Mirrors G sketch p (endState G L) s (Scene.endState G react p sc) := by
  rw [Machine.endState, frame_bind_eq, Scene.endState]
  refine read ?_
  cases hactive : sc.active with
  | nil =>
    rw [Context.frame?_of_active_nil (h.context.active.trans hactive)]
    exact of_error rfl
  | cons x outer =>
    obtain ⟨frame, hframe, rfl⟩ := frame_of_shows h hactive
    rw [hframe]
    exact act tame hL (tame.onEnd _) h

/-! ### Whole runs -/

theorem unwind (limit : Nat) (h : s.Shows G sketch p sc) :
    Mirrors G sketch p (unwind G L limit) s (Scene.unwind G react p limit sc) := by
  induction limit generalizing s sc with
  | zero =>
    refine read ?_
    rw [h.context.depth, Scene.unwind]
    split
    · exact of_error rfl
    · exact pure h
  | succ limit ih =>
    refine read ?_
    rw [h.context.depth, Scene.unwind]
    split
    · refine (endState tame hL h).bind fun _ t sc ht => read ?_
      rw [ht.context.depth]
      split
      · exact (leave tame hL ht).discard.bind fun _ _ _ hu => ih hu
      · exact ih ht
    · exact pure h

/-- The end of the line. -/
theorem finish (h : s.Shows G sketch p sc) :
    Mirrors G sketch p (finish G L) s (Scene.finish G react p sc) := by
  refine read ?_
  rw [unwindLimit, h.context.depth, h.context.limit]
  refine (unwind tame hL _ h).bind fun _ t sc ht => read ?_
  have last {u : Session σ τ} {sc : Scene σ υ} (hu : u.Shows G sketch p sc) :
      Mirrors G sketch p (do
        if 0 < (← Machine.context).stack.depth then Functor.discard (Machine.leave G L)) u
        (if 0 < sc.active.length then Scene.leave G react p sc else some sc) := by
    refine read ?_
    rw [hu.context.depth]
    split
    · exact (leave tame hL hu).discard
    · exact pure hu
  rw [ht.context.depth]
  split
  · exact (endState tame hL ht).bind fun _ _ _ hu => last hu
  · exact last ht

/-- A character is handled and the cursor moves on. -/
theorem handle {maxDepth : Int} {before rest : Text} {d : Char}
    (h : s.Shows G sketch ⟨maxDepth, before, d :: rest⟩ sc) :
    Mirrors G sketch ⟨maxDepth, before ++ [d], rest⟩ (handle G L) s
      (Scene.handle G react ⟨maxDepth, before, d :: rest⟩ sc) := by
  rw [← Option.bind_fun_some (Scene.handle G react ⟨maxDepth, before, d :: rest⟩ sc)]
  refine (dispatch tame hL h).bind fun _ t sc ht => ?_
  have hadvance := advance_apply t
  rw [ht.context.atEnd] at hadvance
  exact of_ok hadvance ⟨ht.context.advance, ht.gathered⟩

/-- The walk along the line. -/
theorem walk {maxDepth : Int} {before text : Text} {limit : Nat} (hlimit : text.length ≤ limit)
    (h : s.Shows G sketch ⟨maxDepth, before, text⟩ sc) :
    Mirrors G sketch ⟨maxDepth, before ++ text, []⟩ (walk G L limit) s
      (Scene.walk G react maxDepth before text [] sc) := by
  induction text generalizing before limit s sc with
  | nil =>
    rw [List.append_nil]
    exact of_ok (walk_of_atEnd limit h.context.atEnd) h
  | cons d text ih =>
    obtain ⟨limit, rfl⟩ : ∃ l, limit = l + 1 := Nat.exists_eq_add_of_lt (Nat.lt_of_lt_of_le
      (Nat.succ_pos _) hlimit) |>.imp fun l hl => by omega
    have hinside : s.context.atEnd = false := h.context.atEnd
    have hstep := (handle tame hL h).bind fun _ t sc ht => ih (Nat.le_of_succ_le_succ hlimit) ht
    rw [List.append_cons, Scene.walk, List.append_nil]
    unfold Mirrors at hstep ⊢
    rw [walk_succ_of_prepare hinside (prepare_of_plain h.context.plain) hinside]
    exact hstep

/-- A part of a line that a scene goes over is behind the walk as well. -/
theorem walk_front {maxDepth : Int} {before text after : Text} {sc' : Scene σ υ}
    (h : s.Shows G sketch ⟨maxDepth, before, text ++ after⟩ sc)
    (hwalk : Scene.walk G react maxDepth before text after sc = some sc') (limit : Nat) :
    ∃ t, Machine.walk G L (text.length + limit) s = Machine.walk G L limit t ∧
      t.Shows G sketch ⟨maxDepth, before ++ text, after⟩ sc' := by
  induction text generalizing before s sc with
  | nil =>
    cases hwalk
    rw [List.append_nil, List.length_nil, Nat.zero_add]
    exact ⟨s, rfl, h⟩
  | cons d text ih =>
    obtain ⟨sc₁, hscene, hmore⟩ := Option.bind_eq_some_iff.1 hwalk
    have hinside : s.context.atEnd = false := h.context.atEnd
    have hhandle := handle tame hL h
    unfold Mirrors at hhandle
    split at hhandle
    · next t _ hmachine hnext =>
      cases hnext.symm.trans hscene
      obtain ⟨u, hwalk, hu⟩ := ih hhandle hmore
      refine ⟨u, ?_, by rwa [List.append_cons]⟩
      rw [List.length_cons, Nat.succ_add,
        walk_succ_of_prepare hinside (prepare_of_plain h.context.plain) hinside,
        bind_apply_of_ok hmachine, hwalk]
    · next hnext => cases hnext.symm.trans hscene
    · exact hhandle.elim

end

/-- What is shown before a line is read. -/
theorem shows_start {settings : Settings} (hplain : settings.substitutes = false) (text : Text)
    (gathered : τ) : (Session.start settings true text gathered).Shows G sketch
      ⟨settings.maxDepth, [], text⟩ ⟨[], sketch gathered⟩ :=
  ⟨⟨rfl, hplain, rfl, rfl, rfl, rfl, rfl, rfl, trivial⟩, rfl⟩

/-- A run has the first part of its line behind it when the scenes have. -/
theorem readFrom_front [Placed υ] {K : Action σ → Prop} (tame : Tame G K)
    (hL : L.SketchedBy G sketch react) {settings : Settings}
    (hplain : settings.substitutes = false) {initial : σ} {front rest : Text} {gathered : τ}
    {first sc : Scene σ υ}
    (henter : Scene.enter G react ⟨settings.maxDepth, [], front ++ rest⟩ initial
      ⟨[], sketch gathered⟩ = some first)
    (hwalk : Scene.walk G react settings.maxDepth [] front rest first = some sc) (limit : Nat) :
    ∃ t, Machine.readFrom G L initial (front.length + limit)
          (Session.start settings true (front ++ rest) gathered) =
        (do
          Machine.walk G L limit
          Machine.finish G L) t ∧
      t.Shows G sketch ⟨settings.maxDepth, front, rest⟩ sc := by
  have hentered := enter tame hL initial (shows_start hplain (front ++ rest) gathered)
  rw [henter] at hentered
  unfold Mirrors at hentered
  split at hentered
  · next s _ hmachine hnext =>
    cases hnext
    obtain ⟨t, ht, hshows⟩ := walk_front tame hL hentered hwalk limit
    refine ⟨t, ?_, hshows⟩
    rw [Machine.readFrom, bind_apply_of_ok hmachine]
    simp only [Bind.bind, EStateM.bind, ht]
  · next hnext => cases hnext
  · exact hentered.elim

/-- A run is mirrored from the first to the last moment. -/
theorem readFrom [Placed υ] {K : Action σ → Prop} (tame : Tame G K)
    (hL : L.SketchedBy G sketch react) {settings : Settings}
    (hplain : settings.substitutes = false) (initial : σ) {text : Text} {limit : Nat}
    (hlimit : text.length ≤ limit) (gathered : τ) :
    Mirrors G sketch ⟨settings.maxDepth, text, []⟩ (readFrom G L initial limit)
      (Session.start settings true text gathered)
      (do
        let sc ← Scene.enter G react ⟨settings.maxDepth, [], text⟩ initial ⟨[], sketch gathered⟩
        let sc ← Scene.walk G react settings.maxDepth [] text [] sc
        Scene.finish G react ⟨settings.maxDepth, text, []⟩ sc) := by
  exact (enter tame hL initial (shows_start hplain text gathered)).bind fun _ _ _ ht =>
    (walk tame hL hlimit ht).bind fun _ _ _ hu => finish tame hL hu

end Mirrors
end Machine

/-- What a strict run without substitution gathers, in a sketch: the run goes through exactly if
the scenes go on. -/
theorem Graph.sketch_readText [Placed υ] {G : Graph σ} {L : Listener σ τ} {sketch : τ → υ}
    {react : Spot → Reaction σ υ} {K : Action σ → Prop} (tame : Machine.Tame G K)
    (hL : L.SketchedBy G sketch react) {settings : Settings}
    (hplain : settings.substitutes = false) (initial : σ) (text : Text) (gathered : τ) :
    ((G.readText settings true L initial text gathered).2.toOption.map fun _ =>
        sketch (G.readText settings true L initial text gathered).1) =
      Scene.read G react settings.maxDepth initial text (sketch gathered) := by
  have hrun := Machine.Mirrors.readFrom tame hL hplain initial
    (length_le_positionLimit settings text) gathered
  unfold Machine.Mirrors at hrun
  unfold readText Scene.read
  split at hrun
  · next hmachine hscene =>
    rw [hmachine, hscene]
    exact congrArg some hrun.gathered
  · next hmachine hscene =>
    rw [hmachine, hscene]
    rfl
  · exact hrun.elim

end

/-! ## The grammars -/

namespace Action

/-- The action is neither a switch of a scope nor put together from others. -/
def isSingle {σ : Type} : Action σ → Bool
  | configure _ _ | chain _ | besideSeparator _ _ _ => false
  | _ => true

/-- The action switches no scope, and neither does what it is put together from. -/
def isTame {σ : Type} : Action σ → Bool
  | configure _ _ => false
  | chain actions => actions.all isSingle
  | besideSeparator _ _ otherwise => otherwise.isSingle
  | _ => true

theorem isTame_of_isSingle {σ : Type} {a : Action σ} (h : a.isSingle = true) :
    a.isTame = true := by
  cases a <;> first | rfl | cases h

end Action

/-- What holds of all actions of a state holds of the action for a character. -/
theorem State.actionFor_all {σ : Type} {s : State σ} {P : Action σ → Bool}
    (htransitions : s.transitions.all fun t => P t.2) (hgap : P s.gapAction = true)
    (hotherwise : P s.otherwise = true) (character : Text) : P (s.actionFor character) = true := by
  unfold State.actionFor
  split
  · next action h =>
    obtain ⟨before, later, htable, -⟩ := List.lookup_eq_some_iff.1 h
    exact List.all_eq_true.1 htransitions (character, action)
      (htable ▸ List.mem_append_right _ List.mem_cons_self)
  · split
    · exact hgap
    · exact hotherwise

theorem isTame_actionFor (x : StateName) (character : Text) :
    ((grammar x).actionFor character).isTame = true := by
  refine State.actionFor_all ?_ ?_ ?_ character
  all_goals cases x <;> rfl

/-- The grammars switch no scopes. -/
theorem tame_grammar : Machine.Tame grammar fun a => a.isTame = true where
  unscoped _ _ := nofun
  closed := by
    intro a b ha hb
    cases hb with
    | last x _ => cases x <;> rfl
    | returned x _ => cases x <;> rfl
    | @first _ x _ => cases x <;> rfl
    | chained hmem => exact Action.isTame_of_isSingle (List.all_eq_true.1 ha _ hmem)
    | otherwise => exact Action.isTame_of_isSingle ha
  dispatched := isTame_actionFor
  onEnter x := by cases x <;> rfl
  onReturn x := by cases x <;> rfl
  onLeave x := by cases x <;> rfl
  onEnd x := by cases x <;> rfl

/-! ## Rules

Which action a character has, and what the actions do to a scene, whatever is gathered. -/

section

variable {x : StateName} {d : Char}

/-- A character that no transition is for. -/
theorem lookup_eq_none {keys : Char → Bool}
    (hkeys : (grammar x).transitions.all (fun t => t.1.all keys) = true) (hd : keys d = false) :
    (grammar x).transitions.lookup [d] = none := by
  rw [List.lookup_eq_none_iff]
  intro t ht
  have hkey := List.all_eq_true.1 hkeys t ht
  rw [bne_iff_ne]
  intro heq
  rw [← heq, List.all_cons, hd] at hkey
  cases hkey

/-- What a gap does where no transition is for it. -/
theorem actionFor_gap
    (hkeys : (grammar x).transitions.all (fun t => t.1.all fun e => !isGap e) = true)
    (hd : isGap d = true) : (grammar x).actionFor [d] = (grammar x).gapAction := by
  rw [State.actionFor_singleton, lookup_eq_none hkeys (by rw [hd]; rfl), Option.getD_none,
    if_pos hd]

/-- A character that has no action of its own is content. -/
theorem actionFor_eq_content {keys : Char → Bool}
    (hkeys : (grammar x).transitions.all (fun t => t.1.all keys) = true)
    (hdefault : (grammar x).otherwise = .content) (hd : keys d = false)
    (hgap : isGap d = true → (grammar x).gapAction = .content) :
    (grammar x).actionFor [d] = .content := by
  rw [State.actionFor_singleton, lookup_eq_none hkeys hd, Option.getD_none]
  split
  · next hd => exact hgap hd
  · exact hdefault

end

namespace Scene

variable {τ : Type} [Placed τ] {react : Spot → Reaction StateName τ} {p : Spot} {n : Nat}
  {x y : StateName} {outer : List StateName} {g g' : τ} {d : Char} {place : Place}
  {sc sc' : Scene StateName τ}

theorem act_enter (hroom : outer.length < p.maxDepth)
    (hreact : react p (.entered x) (x :: outer) g = some g') :
    actUpTo grammar react p (n + 1) (.enter x) ⟨outer, g⟩ =
      actUpTo grammar react p n (grammar x).onEnter ⟨x :: outer, g'⟩ := by
  have hopening : opening p x (⟨outer, g⟩ : Scene StateName τ) = some ⟨x :: outer, g⟩ :=
    if_neg (Int.not_le.2 hroom)
  show ((opening p x ⟨outer, g⟩).bind fun sc =>
    (tell react p (.entered x) sc).bind (actUpTo grammar react p n (grammar x).onEnter)) = _
  rw [hopening, Option.bind_some, tell, hreact]
  rfl

theorem act_leave (hreact : react p (.leaving x) (x :: y :: outer) g = some g') :
    actUpTo grammar react p (n + 2) .leave ⟨x :: y :: outer, g⟩ =
      actUpTo grammar react p (n + 1) (grammar y).onReturn ⟨y :: outer, g'⟩ := by
  show ((actUpTo grammar react p (n + 1) (grammar x).onLeave ⟨x :: y :: outer, g⟩).bind
    (closeBy grammar react p (actUpTo grammar react p (n + 1)))) = _
  rw [onLeave_grammar]
  show ((tell react p (.leaving x) ⟨x :: y :: outer, g⟩).bind fun sc =>
    (closing sc).bind (returnBy grammar (actUpTo grammar react p (n + 1)))) = _
  rw [tell, hreact]
  rfl

theorem act_content (hreact : react p .content outer g = some g') :
    actUpTo grammar react p (n + 1) .content ⟨outer, g⟩ = some ⟨outer, g'⟩ := by
  show tell react p .content ⟨outer, g⟩ = _
  rw [tell, hreact]
  rfl

theorem act_contentAndLeave (hreact : react p .content outer g = some g') :
    actUpTo grammar react p (n + 1) .contentAndLeave ⟨outer, g⟩ =
      actUpTo grammar react p (n + 1) .leave ⟨outer, g'⟩ := by
  show ((tell react p .content ⟨outer, g⟩).bind
    (leaveBy grammar react p (actUpTo grammar react p n))) = _
  rw [tell, hreact]
  rfl

theorem act_escape (hescapes : grammar.escapesIn outer = true) :
    actUpTo grammar react p (n + 1) (.escape x) ⟨outer, g⟩ =
      actUpTo grammar react p (n + 1) (.enter x) ⟨outer, g⟩ :=
  if_pos hescapes

section

variable (hplace : Placed.place? g = some place)
include hplace

theorem act_startValue (hstarts : place.startsValue = true) :
    actUpTo grammar react p (n + 1) (.startValue x) ⟨outer, g⟩ =
      actUpTo grammar react p (n + 1) (.enter x) ⟨outer, g⟩ := by
  show (Placed.place? g).bind (fun place => if place.startsValue then _ else _) = _
  rw [hplace, Option.bind_some, if_pos hstarts]
  rfl

theorem act_startBraces_object (hstarts : place.startsValue = true) :
    actUpTo grammar react p (n + 1) (.startBraces x y) ⟨outer, g⟩ =
      actUpTo grammar react p (n + 1) (.enter x) ⟨outer, g⟩ := by
  show (Placed.place? g).bind (fun place => if place.startsValue then _ else _) = _
  rw [hplace, Option.bind_some, if_pos hstarts]
  rfl

theorem act_startBraces_bytes (hstarts : place.startsValue = false)
    (hopens : place.opensBytes = true) :
    actUpTo grammar react p (n + 1) (.startBraces x y) ⟨outer, g⟩ =
      actUpTo grammar react p (n + 1) (.enter y) ⟨outer, g⟩ := by
  show (Placed.place? g).bind
    (fun place => if place.startsValue then _ else if place.opensBytes then _ else _) = _
  rw [hplace, Option.bind_some, hstarts, if_neg nofun, if_pos hopens]
  rfl

theorem act_endItem (hreact : react p .itemEnd outer g = some g') :
    actUpTo grammar react p (n + 1) .endItem ⟨outer, g⟩ = some ⟨outer, g'⟩ := by
  show (Placed.place? g).bind (fun _ => tell react p .itemEnd ⟨outer, g⟩) = _
  rw [hplace, Option.bind_some, tell, hreact]
  rfl

theorem act_endName (hends : place.endsName = true)
    (hreact : react p .nameEnd outer g = some g') :
    actUpTo grammar react p (n + 1) .endName ⟨outer, g⟩ = some ⟨outer, g'⟩ := by
  show (Placed.place? g).bind (fun place => (tell react p .nameEnd ⟨outer, g⟩).bind
    fun sc => if place.endsName then some sc else _) = _
  rw [hplace, Option.bind_some, tell, hreact]
  exact if_pos hends

end

theorem handle_cons (hd : p.character? = some d) :
    handle grammar react p ⟨x :: outer, g⟩ =
      actUpTo grammar react p 1000 ((grammar x).actionFor [d]) ⟨x :: outer, g⟩ := by
  show actUpTo grammar react p 1000 ((grammar x).actionFor p.character?.toList) _ = _
  rw [hd]
  rfl

theorem walk_append_of {maxDepth : Int} {before first second after : Text}
    (h : walk grammar react maxDepth before first (second ++ after) sc = some sc') :
    walk grammar react maxDepth before (first ++ second) after sc =
      walk grammar react maxDepth (before ++ first) second after sc' := by
  rw [walk_append, h, Option.bind_some]

/-- The last state is left at the end of a line. -/
theorem leave_last (hreact : react p (.leaving x) [x] g = some g') :
    leave grammar react p ⟨[x], g⟩ = some ⟨[], g'⟩ := by
  show ((act grammar react p (grammar x).onLeave ⟨[x], g⟩).bind _) = _
  rw [onLeave_grammar]
  show ((tell react p (.leaving x) ⟨[x], g⟩).bind fun sc =>
    (closing sc).bind (returnBy grammar _)) = _
  rw [tell, hreact]
  rfl

end Scene

end CommandLine
