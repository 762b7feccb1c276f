/-
# `CommandLine.Proofs.Turns` — how much a run does about one character

A *turn* of a run is the entering or the leaving of a state.  The actions that handle a character
set each other off: a state that is entered, left or returned to may have the character handled
once more.  Nothing gets smaller on the way, so the bound comes from the table of the states, and
what cannot be seen from the table (the states below the innermost one, what a listener answers,
whether escapes are on) is taken in every way that is possible.

A *plan* says of the innermost state and of the turns and contents that are left whether what is
still to be done can be afforded.  An action is read as a map of plans, from what is to follow it
to what it takes itself:

    content             one content less
    enter `y`           `y` may be held here; one turn less; then what `y` does when it is entered
    leave               what the state does when it is left; one turn less; then, for every state
                        that may hold this one, what that does when it is returned to
    dispatch            the action of the state for the character, or for any without a meaning
    a condition         both branches can be afforded

    the table           from every state and for every character four turns and one content
                        suffice, or three where the state may have been entered just now
                        (`affords_actionOn`, by evaluation: there are finitely many cases)
    soundness           what can be afforded is done, and not more (`Machine.meets_actUpTo`)
    runs                every place starts with what suffices there (`Session.Ready.walk`), and
                        at the end of the line nothing is counted (`governs_sparse`)
-/
import CommandLine.Proofs.Safety
import CommandLine.Proofs.Scenes

namespace CommandLine

open Text StateName

/-! ## Counting the entries of a trace -/

section

variable {σ : Type}

/-- A state is entered or left. -/
def Signal.isTurn : Signal σ → Bool
  | entered _ | leaving _ => true
  | content | itemEnd | nameEnd => false

/-- The character under the cursor is content. -/
def Signal.isContent : Signal σ → Bool
  | content => true
  | _ => false

/-- The number of entries at a place, before the end of the line, that are of a kind. -/
def countAt (kind : Signal σ → Bool) (place : Nat) (trace : Array (Entry σ)) : Nat :=
  trace.countP fun e => kind e.signal && (e.location == place && !e.character.isEmpty)

variable {kind : Signal σ → Bool} {place : Nat} {trace : Array (Entry σ)} {e : Entry σ}

theorem countAt_push_le :
    countAt kind place (trace.push e) ≤ countAt kind place trace + (kind e.signal).toNat := by
  rw [countAt, Array.countP_push]
  cases kind e.signal with
  | false => exact Nat.le_refl _
  | true =>
    refine Nat.add_le_add_left ?_ _
    split <;> decide

theorem countAt_push_of_ne (h : e.location ≠ place) :
    countAt kind place (trace.push e) = countAt kind place trace := by
  have hne : (e.location == place) = false := beq_false_of_ne h
  simp [countAt, hne]

theorem countAt_eq_zero (h : ∀ e ∈ trace, e.location < place) : countAt kind place trace = 0 := by
  rw [countAt, Array.countP_eq_zero]
  intro e he
  have hne : (e.location == place) = false := beq_false_of_ne (Nat.ne_of_lt (h e he))
  simp [hne]

/-- At every place at most four states are entered or left and at most one character is content. -/
def Sparse (trace : Array (Entry σ)) : Prop :=
  ∀ place, countAt Signal.isTurn place trace ≤ 4 ∧ countAt Signal.isContent place trace ≤ 1

theorem Sparse.push_of_end (h : Sparse trace) (he : e.character = []) : Sparse (trace.push e) := by
  intro place
  have hpush {kind : Signal σ → Bool} : countAt kind place (trace.push e) =
      countAt kind place trace := by
    simp [countAt, he]
  rw [hpush, hpush]
  exact h place

/-- Nothing is recorded ahead of the location, the places before it are sparse, and so many more
turns and contents may be recorded there. -/
structure Tally (location turns contents : Nat) (trace : Array (Entry σ)) : Prop where
  turns_le : countAt Signal.isTurn location trace + turns ≤ 4
  contents_le : countAt Signal.isContent location trace + contents ≤ 1
  settled : ∀ place < location,
    countAt Signal.isTurn place trace ≤ 4 ∧ countAt Signal.isContent place trace ≤ 1
  behind : ∀ e ∈ trace, e.location ≤ location

namespace Tally

variable {location turns contents turns' contents' : Nat}

theorem empty : Tally 0 4 1 (#[] : Array (Entry σ)) where
  turns_le := Nat.le_refl _
  contents_le := Nat.le_refl _
  settled _ h := absurd h (Nat.not_lt_zero _)
  behind := by simp

theorem sparse (h : Tally location turns contents trace) : Sparse trace := by
  intro place
  rcases Nat.lt_trichotomy place location with hlt | rfl | hgt
  · exact h.settled place hlt
  · exact ⟨Nat.le_of_add_right_le h.turns_le, Nat.le_of_add_right_le h.contents_le⟩
  · have hbehind : ∀ e ∈ trace, e.location < place := fun e he =>
      Nat.lt_of_le_of_lt (h.behind e he) hgt
    rw [countAt_eq_zero hbehind, countAt_eq_zero hbehind]
    exact ⟨Nat.zero_le _, Nat.zero_le _⟩

theorem mono (h : Tally location turns contents trace) (hturns : turns' ≤ turns)
    (hcontents : contents' ≤ contents) : Tally location turns' contents' trace where
  turns_le := Nat.le_trans (Nat.add_le_add_left hturns _) h.turns_le
  contents_le := Nat.le_trans (Nat.add_le_add_left hcontents _) h.contents_le
  settled := h.settled
  behind := h.behind

/-- What is recorded at the location is paid for. -/
theorem push (h : Tally location (turns + e.signal.isTurn.toNat)
      (contents + e.signal.isContent.toNat) trace)
    (he : e.location = location) : Tally location turns contents (trace.push e) where
  turns_le := by
    have hpush : countAt Signal.isTurn location (trace.push e) ≤ _ := countAt_push_le
    have hturns := h.turns_le
    omega
  contents_le := by
    have hpush : countAt Signal.isContent location (trace.push e) ≤ _ := countAt_push_le
    have hcontents := h.contents_le
    omega
  settled place hplace := by
    have hne : e.location ≠ place := by omega
    rw [countAt_push_of_ne hne, countAt_push_of_ne hne]
    exact h.settled place hplace
  behind e' he' := by
    rcases Array.mem_push.1 he' with he' | rfl
    · exact h.behind e' he'
    · exact Nat.le_of_eq he

/-- At the next place nothing has been recorded. -/
theorem advance (h : Tally location turns contents trace) : Tally (location + 1) 4 1 trace := by
  have hbehind : ∀ e ∈ trace, e.location < location + 1 := fun e he =>
    Nat.lt_succ_of_le (h.behind e he)
  refine ⟨?_, ?_, fun place _ => h.sparse place, fun e he => Nat.le_of_lt (hbehind e he)⟩
  · simp [countAt_eq_zero hbehind]
  · simp [countAt_eq_zero hbehind]

end Tally
end

/-! ## What can be afforded -/

namespace Turns

/-- The characters that mean something to some state. -/
def meaningful : Text :=
  gapCharacters ++ ['/', ':', '.', '{', '(', '=', '"', '\\', ',', ')', ';', '}', '-', '>', '[',
    ']', '\x60']

/-- What the states see of a character: one without a meaning is like any other. -/
def sight (d : Char) : Option Char := if meaningful.contains d then some d else none

/-- The action of a state for what it sees. -/
def actionOn (look : Option Char) (x : StateName) : Action StateName :=
  match look with
  | some d => (grammar x).actionFor [d]
  | none => (grammar x).otherwise

theorem actionFor_eq (x : StateName) (d : Char) :
    (grammar x).actionFor [d] = actionOn (sight d) x := by
  unfold sight
  split
  · rfl
  · next hplain =>
    have hkeys : (grammar x).transitions.all (fun t => t.1.all meaningful.contains) = true := by
      cases x <;> rfl
    have hgap : ¬ isGap d = true := by
      intro hgap
      have hmem : d ∈ meaningful := List.mem_append_left _ (List.contains_iff_mem.1 hgap)
      exact hplain (List.contains_iff_mem.2 hmem)
    rw [State.actionFor_singleton, lookup_eq_none hkeys (eq_false_of_ne_true hplain),
      Option.getD_none, if_neg hgap]
    rfl

/-- What the states see of a character tells whether it is one of the meaningful ones. -/
theorem any_sight {characters : Text} (h : characters.all meaningful.contains = true) (d : Char) :
    (sight d).any characters.contains = characters.contains d := by
  unfold sight
  split
  · rfl
  · next hplain =>
    symm
    rw [Option.any_none, ← Bool.not_eq_true]
    intro hmem
    exact hplain (List.all_eq_true.1 h d (List.contains_iff_mem.1 hmem))

/-- What is to be done next can be afforded: the innermost state, and how many turns may be taken
and how many characters may become content. -/
abbrev Plan := StateName → Nat → Nat → Bool

section

variable (look : Option Char) (run : Action StateName → Plan → Plan)

/-- A character becomes content. -/
def taking (next : Plan) : Plan := fun x turns contents =>
  match contents with
  | 0 => false
  | contents + 1 => next x turns contents

/-- A state is entered that the innermost one holds. -/
def entering (y : StateName) (next : Plan) : Plan := fun x turns contents =>
  x.holds.contains y &&
    match turns with
    | 0 => false
    | turns + 1 => run (grammar y).onEnter next y turns contents

/-- The innermost state is taken off, whichever state holds it. -/
def removing (next : Plan) : Plan := fun x turns contents =>
  !x.isRoot &&
    match turns with
    | 0 => false
    | turns + 1 => all.all fun y => !y.holds.contains x ||
        run (grammar y).onReturn next y turns contents

/-- The innermost state is left. -/
def leaving (next : Plan) : Plan := fun x => run (grammar x).onLeave (removing run next) x

/-- An action is performed; `run` performs those that it sets off. -/
def performing : Action StateName → Plan → Plan
  | .skip, next | .endItem, next => next
  | .content, next => taking next
  | .leave, next => leaving run next
  | .contentAndLeave, next => taking (leaving run next)
  | .dispatch, next => fun x => run (actionOn look x) next x
  | .enter y, next | .enterUnlessEnd y, next => entering run y next
  | .escape y, next | .startValue y, next => fun x turns contents =>
    entering run y next x turns contents && taking next x turns contents
  | .startBraces y z, next => fun x turns contents =>
    entering run y next x turns contents && entering run z next x turns contents &&
      taking next x turns contents
  | .endName, next => fun x turns contents =>
    next x turns contents && taking next x turns contents
  | .chain actions, next => actions.foldr run next
  | .besideSeparator _ _ otherwise, next => fun x turns contents =>
    next x turns contents && run otherwise next x turns contents
  | .leaveOnGap, next => if look.any isGap then leaving run next else next
  | .leaveOn characters, next => fun x turns contents =>
    characters.all meaningful.contains &&
      (if look.any characters.contains then leaving run next else next) x turns contents
  | .undefined, _ | .notFinished _, _ | .configure _ _, _ => fun _ _ _ => false

end

/-- The action can be afforded, with what it sets off at most `limit` deep.  The limit makes the
evaluation end, and actions that set each other off for ever cannot be afforded with any limit. -/
def affords (look : Option Char) : Nat → Action StateName → Plan → Plan
  | 0 => fun _ _ _ _ _ => false
  | limit + 1 => performing look (affords look limit)

/-- How many turns may be taken from a state on: a run may have entered its first state already. -/
def allowance (x : StateName) : Nat := if x.isRoot then 3 else 4

theorem affords_actionOn : ∀ look ∈ none :: meaningful.map some, ∀ x ∈ all,
    affords look 12 (actionOn look x) (fun _ _ _ => true) x (allowance x) 1 = true := by
  decide +kernel

end Turns

/-! ## What is afforded can be done -/

section

variable {τ : Type} {L : Listener StateName τ} {b x : StateName} {f : Footing} {location : Nat}
  {active outer : List StateName} {turns contents : Nat}
  {s : Session StateName (Array (Entry StateName) × τ)}

/-- The listener itself ends the run as one that never ends. -/
def Listener.SaysEndless (L : Listener StateName τ) : Prop :=
  ∃ signal c g, (L.hear signal c g).verdict = .refuse .endless

/-- The session stands there, and so many more turns and contents may be recorded. -/
abbrev Session.Budgets (f : Footing) (location : Nat) (active : List StateName)
    (turns contents : Nat) (s : Session StateName (Array (Entry StateName) × τ)) : Prop :=
  s.Stands (fun _ gathered => Tally location turns contents gathered.1) f location active

namespace Machine

open Turns

/-- The run ends early with a sparse trace, and not because actions set each other off for ever. -/
def Breaks (L : Listener StateName τ) (fault : Fault)
    (s : Session StateName (Array (Entry StateName) × τ)) : Prop :=
  Sparse s.gathered.1 ∧ (fault = .endless → L.SaysEndless)

/-- Any other fault than the endless one leaves the trace as it is. -/
theorem Breaks.of_ne {fault : Fault} (h : Sparse s.gathered.1) (hne : fault ≠ .endless) :
    Breaks L fault s := ⟨h, fun hendless => absurd hendless hne⟩

/-- The program ends where the next plan can be afforded, or breaks. -/
abbrev Meets {α : Type} (L : Listener StateName τ) (b : StateName) (f : Footing) (location : Nat)
    (next : Plan) (p : Machine StateName (Array (Entry StateName) × τ) α)
    (s : Session StateName (Array (Entry StateName) × τ)) : Prop :=
  Ends (Breaks L) (fun _ t => ∃ y inner turns contents, next y turns contents = true ∧
    Nested b (y :: inner) ∧ t.Budgets f location (y :: inner) turns contents) p s

theorem ends_tell (signal : Signal StateName) (turns contents : Nat)
    (hs : s.Budgets f location active (turns + signal.isTurn.toNat)
      (contents + signal.isContent.toNat)) :
    Ends (Breaks L) (fun _ t => t.Budgets f location active turns contents)
      (tell (Listener.recording L) signal) s := by
  have hpushed : Tally location turns contents (s.gathered.1.push (Entry.of signal s.context)) :=
    hs.kept.push hs.location_eq
  have hheard : (heard (Listener.recording L) signal s).Budgets f location active turns contents :=
    ⟨hs.footing_eq, hs.location_eq, hs.active_eq, hpushed⟩
  refine .tell (fun _ => hheard) (fun _ => ?_) fun {fault} hv =>
    ⟨hpushed.sparse, fun hendless => ?_⟩
  · exact .complain (fun _ => .of_ne hpushed.sparse Fault.noConfusion) fun _ =>
      ⟨hheard.footing_eq, hheard.location_eq, hheard.active_eq, hheard.kept⟩
  · subst hendless
    exact ⟨signal, s.context, s.gathered.2, hv⟩

section

variable {run : Action StateName → Machine StateName (Array (Entry StateName) × τ) Unit}
  {plan : Action StateName → Plan → Plan} {next : Plan}
  (hrun : ∀ (a : Action StateName) (next : Plan) (x : StateName) (outer : List StateName)
    (turns contents : Nat) (s : Session StateName (Array (Entry StateName) × τ)),
    plan a next x turns contents = true → Nested b (x :: outer) →
      s.Budgets f location (x :: outer) turns contents → Meets L b f location next (run a) s)
  (hnested : Nested b (x :: outer)) (hs : s.Budgets f location (x :: outer) turns contents)
include hnested hs

theorem meets_taking (h : taking next x turns contents = true) :
    Meets L b f location next (tell (Listener.recording L) .content) s := by
  cases contents with
  | zero => cases h
  | succ contents =>
    have htold := ends_tell (L := L) .content turns contents hs
    exact htold.mono (fun _ _ h => h) fun _ t ht => ⟨x, outer, turns, contents, h, hnested, ht⟩

include hrun

theorem meets_entering {y : StateName} (h : entering plan y next x turns contents = true) :
    Meets L b f location next (enterBy grammar (Listener.recording L) run y) s := by
  simp only [entering, Bool.and_eq_true] at h
  obtain ⟨hheld, h⟩ := h
  have hinside : Nested b (y :: x :: outer) := .inside (List.contains_iff_mem.1 hheld) hnested
  cases turns with
  | zero => cases h
  | succ turns =>
    rw [enterBy_eq]
    have hopened := ends_opening (F := Breaks L) (G := grammar) y hs
      (.of_ne hs.kept.sparse Fault.noConfusion)
    refine hopened.bind fun _ t ht => ?_
    have htold := ends_tell (L := L) (.entered y) turns contents ht
    exact htold.bind fun _ u hu => hrun _ _ _ _ _ _ _ h hinside hu

theorem meets_removing (h : removing plan next x turns contents = true) :
    Meets L b f location next (closeBy grammar (Listener.recording L) run) s := by
  simp only [removing, Bool.and_eq_true, Bool.not_eq_true'] at h
  obtain ⟨hroot, h⟩ := h
  obtain ⟨y, rest, rfl, held, hbelow⟩ := hnested.holder hroot
  cases turns with
  | zero => cases h
  | succ turns =>
    have hreturn := List.all_eq_true.1 h y (mem_all y)
    rw [List.contains_iff_mem.2 held, Bool.not_true, Bool.false_or] at hreturn
    obtain ⟨frame, hframe, rfl⟩ := Context.frame?_of_active hs.active_eq
    unfold closeBy
    rw [frame_bind_eq]
    refine .read ?_
    rw [hframe]
    have htold := ends_tell (L := L) (.leaving frame.state) turns contents hs
    refine htold.bind fun _ t ht => ?_
    have hclosed := ends_closing (J := fun _ g => Tally location turns contents g.1)
      (F := Breaks L) ht
    refine hclosed.bind fun _ u hu => .read ?_
    obtain ⟨below, hfound, rfl⟩ := Context.frame?_of_active hu.active_eq
    rw [hfound]
    exact hrun _ _ _ _ _ _ _ hreturn hbelow hu

theorem meets_leaving (h : leaving plan next x turns contents = true) :
    Meets L b f location next
      (Functor.discard (leaveBy grammar (Listener.recording L) run)) s := by
  obtain ⟨frame, hframe, rfl⟩ := Context.frame?_of_active hs.active_eq
  refine Ends.discard ?_
  rw [leaveBy_eq]
  refine .read ?_
  rw [hframe]
  refine (hrun _ _ _ _ _ _ _ h hnested hs).bind fun _ t ht => ?_
  obtain ⟨y, inner, turns', contents', hclose, hinner, ht⟩ := ht
  exact (meets_removing hrun hinner ht hclose).bind fun _ u hu => .pure hu

omit hnested hs in
theorem meets_forM {actions : List (Action StateName)}
    (h : actions.foldr plan next x turns contents = true) (hnested : Nested b (x :: outer))
    (hs : s.Budgets f location (x :: outer) turns contents) :
    Meets L b f location next (actions.forM run) s := by
  induction actions generalizing x outer turns contents s with
  | nil => exact .pure ⟨x, outer, turns, contents, h, hnested, hs⟩
  | cons a rest ih =>
    refine (hrun _ _ _ _ _ _ _ h hnested hs).bind fun _ t ht => ?_
    obtain ⟨y, inner, turns', contents', hrest, hinner, ht⟩ := ht
    exact ih hrest hinner ht

omit hrun hnested in
/-- A listener that cannot say where it stands ends the run. -/
theorem meets_asking {k : Place → Machine StateName (Array (Entry StateName) × τ) Unit}
    (hk : ∀ p, Meets L b f location next (k p) s) :
    Meets L b f location next (place (Listener.recording L) >>= k) s := by
  have happly := place_apply (Listener.recording L) s
  cases hplace : (Listener.recording L).place s.gathered with
  | ok p =>
    rw [hplace] at happly
    exact .of_eq (bind_apply_of_ok happly k) (hk p)
  | error e =>
    rw [hplace] at happly
    exact .of_error (bind_apply_of_error happly k) (.of_ne hs.kept.sparse Fault.noConfusion)

omit hrun in
theorem meets_telling {signal : Signal StateName} (hturn : signal.isTurn = false)
    (hcontent : signal.isContent = false) (h : next x turns contents = true) :
    Meets L b f location next (tell (Listener.recording L) signal) s := by
  have hpaid : s.Budgets f location (x :: outer) (turns + signal.isTurn.toNat)
      (contents + signal.isContent.toNat) := by
    rw [hturn, hcontent]
    exact hs
  exact (ends_tell signal turns contents hpaid).mono (fun _ _ h => h) fun _ t ht =>
    ⟨x, outer, turns, contents, h, hnested, ht⟩

/-- An action is done as far as it can be afforded. -/
theorem meets_performing {d : Char} (hd : f.character? location = some d) {a : Action StateName}
    (h : performing (sight d) plan a next x turns contents = true) :
    Meets L b f location next (perform grammar (Listener.recording L) run a) s := by
  have hcharacter : s.context.character? = some d := (character?_of_stands hs).trans hd
  have stay {turns' contents' : Nat} (hnext : next x turns' contents' = true)
      {t : Session StateName (Array (Entry StateName) × τ)}
      (ht : t.Budgets f location (x :: outer) turns' contents') :
      Meets L b f location next (pure () : Machine StateName _ Unit) t :=
    .pure ⟨x, outer, turns', contents', hnext, hnested, ht⟩
  cases a with
  | skip => exact stay h hs
  | content => exact meets_taking hnested hs h
  | leave => exact meets_leaving hrun hnested hs h
  | contentAndLeave =>
    have htake : taking (leaving plan next) x turns contents = true := h
    refine (meets_taking hnested hs htake).bind fun _ t ht => ?_
    obtain ⟨y, inner, turns', contents', hleave, hinner, ht⟩ := ht
    exact meets_leaving hrun hinner ht hleave
  | dispatch =>
    refine ends_dispatchBy hs hd (hrun _ _ _ _ _ _ _ ?_ hnested hs)
    rw [actionFor_eq]
    exact h
  | undefined => cases h
  | enter y => exact meets_entering hrun hnested hs h
  | escape y =>
    simp only [performing, Bool.and_eq_true] at h
    refine .read ?_
    split
    · exact meets_entering hrun hnested hs h.1
    · exact meets_taking hnested hs h.2
  | chain actions => exact meets_forM hrun h hnested hs
  -- No state of the table complains or switches escapes while a character is handled.
  | notFinished delimiter => cases h
  | configure escapes expressions => cases h
  | besideSeparator following preceding otherwise =>
    simp only [performing, Bool.and_eq_true] at h
    refine .read ?_
    split
    · exact stay h.1 hs
    · exact hrun _ _ _ _ _ _ _ h.2 hnested hs
  | leaveOnGap =>
    have hgaps : gapCharacters.all meaningful.contains = true := rfl
    have hgap : (sight d).any isGap = isGap d := any_sight hgaps d
    simp only [performing, hgap] at h
    refine .read ?_
    rw [hcharacter]
    split at h
    · next hon => exact (if_pos hon).symm ▸ meets_leaving hrun hnested hs h
    · next hoff => exact (if_neg hoff).symm ▸ stay h hs
  | leaveOn characters =>
    simp only [performing, Bool.and_eq_true] at h
    obtain ⟨hmeaningful, h⟩ := h
    rw [any_sight hmeaningful] at h
    refine .read ?_
    rw [hcharacter]
    split at h
    · next hon => exact (if_pos hon).symm ▸ meets_leaving hrun hnested hs h
    · next hoff => exact (if_neg hoff).symm ▸ stay h hs
  | enterUnlessEnd y =>
    have hinside : s.context.atEnd = false := by
      rw [Context.atEnd_eq_isNone, hcharacter]
      rfl
    refine .read ?_
    rw [hinside]
    exact meets_entering hrun hnested hs h
  | startValue y =>
    simp only [performing, Bool.and_eq_true] at h
    refine meets_asking hs fun p => ?_
    split
    · exact meets_entering hrun hnested hs h.1
    · exact meets_taking hnested hs h.2
  | startBraces y z =>
    simp only [performing, Bool.and_eq_true] at h
    refine meets_asking hs fun p => ?_
    split
    · exact meets_entering hrun hnested hs h.1.1
    · split
      · exact meets_entering hrun hnested hs h.1.2
      · exact meets_taking hnested hs h.2
  | endItem => exact meets_asking hs fun p => meets_telling hnested hs rfl rfl h
  | endName =>
    simp only [performing, Bool.and_eq_true] at h
    refine meets_asking hs fun p => ?_
    refine (ends_tell .nameEnd turns contents hs).bind fun _ t ht => ?_
    split
    · exact stay h.1 ht
    · exact meets_taking hnested ht h.2

end

/-- What can be afforded is done within the limit. -/
theorem meets_actUpTo {d : Char} (hd : f.character? location = some d) (n spare : Nat)
    {a : Action StateName} {next : Plan}
    (h : affords (sight d) n a next x turns contents = true) (hnested : Nested b (x :: outer))
    (hs : s.Budgets f location (x :: outer) turns contents) :
    Meets L b f location next (actUpTo grammar (Listener.recording L) (n + spare) a) s := by
  induction n generalizing a next x outer turns contents s with
  | zero => cases h
  | succ n ih =>
    rw [Nat.succ_add]
    have hperform : performing (sight d) (affords (sight d) n) a next x turns contents = true := h
    refine meets_performing (fun _ _ _ _ _ _ _ h hnested hs => ?_) hnested hs hd hperform
    exact ih h hnested hs

/-- Whatever character comes, no more than the allowance is spent on it. -/
theorem ends_dispatch_afforded {d : Char} (hd : f.character? location = some d)
    (hnested : Nested b (x :: outer)) (hs : s.Budgets f location (x :: outer) (allowance x) 1) :
    Ends (Breaks L) (fun _ t => ∃ y inner, Nested b (y :: inner) ∧
      t.Budgets f location (y :: inner) 0 0) (dispatch grammar (Listener.recording L)) s := by
  have hlook : sight d ∈ none :: meaningful.map some := by
    unfold sight
    split
    · next hmem =>
      exact List.mem_cons_of_mem _ (List.mem_map_of_mem (List.contains_iff_mem.1 hmem))
    · exact List.mem_cons_self
  have hafforded := affords_actionOn _ hlook x (mem_all x)
  -- The table needs twelve of the thousand actions that may set each other off.
  have hmeets := meets_actUpTo (L := L) hd 12 988 hafforded hnested hs
  rw [← actionFor_eq] at hmeets
  refine ends_dispatchBy hs hd (hmeets.mono (fun _ _ h => h) fun _ t ht => ?_)
  obtain ⟨y, inner, turns, contents, -, hinner, ht⟩ := ht
  exact ⟨y, inner, hinner, ht.imp fun h => h.mono (Nat.zero_le _) (Nat.zero_le _)⟩

end Machine

/-! ## Whole runs -/

/-- The next character can be handled: the active states are nested, and the allowance is there. -/
def Session.Ready (b : StateName) (s : Session StateName (Array (Entry StateName) × τ)) : Prop :=
  ∃ x outer, Nested b (x :: outer) ∧
    s.Budgets s.context.footing s.context.location (x :: outer) (Turns.allowance x) 1

/-- The run ends early with a sparse trace.  If it ends as endless, it has read its limit, or the
listener says so. -/
def Ceases (L : Listener StateName τ) (limit : Nat) (fault : Fault)
    (s : Session StateName (Array (Entry StateName) × τ)) : Prop :=
  Sparse s.gathered.1 ∧ (fault = .endless →
    (s.context.atEnd = false ∧ s.context.location = limit) ∨ L.SaysEndless)

open Machine

theorem Machine.Breaks.ceases {limit : Nat} {fault : Fault} (h : Breaks L fault s) :
    Ceases L limit fault s := ⟨h.1, fun hendless => .inr (h.2 hendless)⟩

namespace Session.Ready

theorem sparse (h : s.Ready b) : Sparse s.gathered.1 := by
  obtain ⟨x, outer, -, hs⟩ := h
  exact hs.kept.sparse

/-- Substitution leaves the active states, the cursor and the trace alone. -/
theorem resolve (h : s.Ready b) :
    Ends (Breaks L) (fun _ t => t.Ready b ∧ t.context.location = s.context.location)
      Machine.resolve s := by
  obtain ⟨x, outer, hnested, hs⟩ := h
  have hstack : s.context.resolve.1.stack = s.context.stack := Context.stack_resolveRounds _ _
  have hlocation : s.context.resolve.1.location = s.context.location :=
    Context.location_resolveRounds _ _
  have hactive : s.context.resolve.1.active = x :: outer := by
    rw [Context.active, hstack]
    exact hs.active_eq
  have hresolve := resolve_apply s
  cases he : s.context.resolve.2 with
  | none =>
    rw [he] at hresolve
    refine .of_ok hresolve ⟨⟨x, outer, hnested, rfl, rfl, hactive, ?_⟩, hlocation⟩
    rw [hlocation]
    exact hs.kept
  | some fault =>
    rw [he] at hresolve
    refine .of_error hresolve (.of_ne hs.kept.sparse ?_)
    cases Context.refuses_of_resolve he <;> exact Fault.noConfusion

theorem prepare (h : s.Ready b) :
    Ends (Breaks L) (fun _ t => t.Ready b ∧ t.context.location = s.context.location)
      Machine.prepare s := by
  refine .read ?_
  split
  · exact h.resolve
  · exact .pure ⟨h, rfl⟩

/-- A character is handled within its allowance, and the next place has one of its own. -/
theorem handle (h : s.Ready b) (hinside : s.context.atEnd = false) :
    Ends (Breaks L) (fun _ t => t.Ready b ∧ t.context.location = s.context.location + 1)
      (Machine.handle grammar (Listener.recording L)) s := by
  obtain ⟨x, outer, hnested, hs⟩ := h
  obtain ⟨d, hd⟩ : ∃ d, s.context.footing.character? s.context.location = some d := by
    rw [Context.atEnd_eq_isNone, Option.isNone_eq_false_iff, Option.isSome_iff_exists] at hinside
    exact hinside
  refine (ends_dispatch_afforded hd hnested hs).bind fun _ t ht => ?_
  obtain ⟨y, inner, hinner, ht⟩ := ht
  have hend : t.context.atEnd = false := by
    rw [Context.atEnd_eq_isNone, character?_of_stands ht, hd]
    rfl
  have hadvance := advance_apply t
  rw [hend] at hadvance
  have hallowed : Turns.allowance y ≤ 4 := by
    rw [Turns.allowance]
    split <;> decide
  refine .of_ok hadvance ⟨⟨y, inner, hinner, rfl, rfl, ht.active_eq, ?_⟩, ?_⟩
  · exact (ht.location_eq ▸ ht.kept).advance.mono hallowed (Nat.le_refl 1)
  · exact congrArg (· + 1) ht.location_eq

/-- The walk ends at the end of the line unless it has read its limit. -/
theorem walk {limit : Nat} (remaining : Nat) (h : s.Ready b)
    (hlimit : s.context.atEnd = true ∨ s.context.location + remaining = limit) :
    Ends (Ceases L limit) (fun _ t => t.Ready b ∧ t.context.atEnd = true)
      (Machine.walk grammar (Listener.recording L) remaining) s := by
  induction remaining generalizing s with
  | zero =>
    refine .read ?_
    cases hend : s.context.atEnd with
    | true => exact .pure ⟨h, hend⟩
    | false =>
      rw [hend] at hlimit
      have hreached : s.context.location = limit := hlimit.resolve_left nofun
      exact .of_error rfl ⟨h.sparse, fun _ => .inl ⟨hend, hreached⟩⟩
  | succ remaining ih =>
    refine .read ?_
    cases hend : s.context.atEnd with
    | true => exact .pure ⟨h, hend⟩
    | false =>
      rw [hend] at hlimit
      have hleft : s.context.location + (remaining + 1) = limit := hlimit.resolve_left nofun
      have hstep : Ends (Breaks L) (fun _ t => t.Ready b ∧
          (t.context.atEnd = true ∨ t.context.location + remaining = limit))
          (step grammar (Listener.recording L)) s := by
        rw [step_eq]
        refine h.prepare.bind fun _ t ht => .read ?_
        obtain ⟨ht, hlocation⟩ := ht
        cases hinside : t.context.atEnd with
        | true => exact .pure ⟨ht, .inl hinside⟩
        | false =>
          refine (ht.handle hinside).mono (fun _ _ h => h) fun _ u hu => ⟨hu.1, .inr ?_⟩
          omega
      have hstep := hstep.mono (E := Ceases L limit) (fun _ _ => Breaks.ceases) fun _ _ hQ => hQ
      exact hstep.bind fun _ t ht => ih ht.1 ht.2

end Session.Ready

/-- The initial state is entered, which is the first turn at the first place. -/
theorem ready_enter (hroot : b.isRoot = true) (settings : Settings) (strict : Bool) (text : Text)
    (gathered : τ) :
    Ends (Breaks L) (fun _ t => t.Ready b ∧ t.context.location = 0)
      (enter grammar (Listener.recording L) b)
      (Session.start settings strict text (#[], gathered)) := by
  have hs : (Session.start settings strict text (#[], gathered)).Budgets
      ⟨settings, strict, Line.ofText text⟩ 0 [] 4 1 := ⟨rfl, rfl, rfl, .empty⟩
  have hfirst : (grammar b).onEnter = .skip := by
    cases b <;> first | rfl | cases hroot
  have hallowance : Turns.allowance b = 3 := if_pos hroot
  show Ends _ _ (enterBy grammar (Listener.recording L) _ b) _
  rw [enterBy_eq, hfirst]
  have hopened := ends_opening (F := Breaks L) (G := grammar) b hs
    (.of_ne hs.kept.sparse Fault.noConfusion)
  refine hopened.bind fun _ t ht => ?_
  have htold := ends_tell (L := L) (.entered b) 3 1 ht
  refine htold.bind fun _ u hu => .pure ⟨⟨b, [], .bottom hroot, rfl, rfl, hu.active_eq, ?_⟩, ?_⟩
  · rw [hallowance, hu.location_eq]
    exact hu.kept
  · exact hu.location_eq

/-! ### The end of the line -/

theorem ends_tell_of_end (hend : f.character? location = none) (signal : Signal StateName)
    (hs : s.Stands (fun _ gathered => Sparse gathered.1) f location active) :
    Ends (Breaks L) (fun _ t => t.Stands (fun _ gathered => Sparse gathered.1) f location active)
      (tell (Listener.recording L) signal) s := by
  have hcharacter : s.context.character = [] := by
    rw [Context.character, character?_of_stands hs, hend]
    rfl
  have hpushed : Sparse (s.gathered.1.push (Entry.of signal s.context)) :=
    Sparse.push_of_end hs.kept hcharacter
  refine .tell (fun _ => ⟨hs.footing_eq, hs.location_eq, hs.active_eq, hpushed⟩) (fun _ => ?_)
    fun {fault} hv => ⟨hpushed, fun hendless => ?_⟩
  · exact .complain (fun _ => .of_ne hpushed Fault.noConfusion) fun _ =>
      ⟨hs.footing_eq, hs.location_eq, hs.active_eq, hpushed⟩
  · subst hendless
    exact ⟨signal, s.context, s.gathered.2, hv⟩

/-- At the end of the line nothing is recorded at a place before it. -/
theorem governs_sparse (hend : f.character? location = none) :
    Governs grammar (Listener.recording L) { guard := fun _ _ => True, reads := fun _ => False }
      none (fun active s => s.Stands (fun _ gathered => Sparse gathered.1) f location active)
      (Breaks L) where
  active_eq hs := hs.active_eq
  character_eq hs := (character?_of_stands hs).trans hend
  literal _ _ := trivial
  enters {x outer s} _ hs := by
    have hopened := ends_opening (F := Breaks L) (G := grammar) x hs
      (.of_ne hs.kept Fault.noConfusion)
    refine hopened.bind fun _ t ht => ?_
    exact ends_tell_of_end hend _ ht
  leaves {x outer s} _ hs :=
    (ends_tell_of_end hend _ hs).bind fun _ t ht => ends_closing ht
  tells _ _ hs := ends_tell_of_end hend _ hs
  complains delimiter _ hs := ends_notFinished delimiter hs fun _ _ =>
    .of_ne hs.kept Fault.noConfusion
  places hreads _ := hreads.elim

/-- However a run ends, its trace is sparse. -/
theorem ends_readFrom_sparse (hroot : b.isRoot = true) (settings : Settings) (strict : Bool)
    (text : Text) (gathered : τ) (limit : Nat) :
    Ends (Ceases L limit) (fun _ t => Sparse t.gathered.1)
      (readFrom grammar (Listener.recording L) b limit)
      (Session.start settings strict text (#[], gathered)) := by
  have henter := (ready_enter (L := L) hroot settings strict text gathered).mono
    (E := Ceases L limit) (fun _ _ => Breaks.ceases) fun _ _ hQ => hQ
  refine henter.bind fun _ t ht => ?_
  refine (ht.1.walk limit (.inr (by omega))).bind fun _ u hu => ?_
  obtain ⟨⟨x, outer, hnested, hu⟩, hend⟩ := hu
  have hend : u.context.footing.character? u.context.location = none := by
    rw [Context.atEnd_eq_isNone, Option.isNone_iff_eq_none] at hend
    exact hend
  have hfinish := (governs_sparse (L := L) hend).finish (fun _ => trivial) hnested
    (hu.imp fun h => h.sparse)
  refine hfinish.mono (fun _ _ => Breaks.ceases) fun _ v hv => ?_
  obtain ⟨_, -, hv⟩ := hv
  exact hv.kept

/-- About one character a run does little: at each place of the line at most four states are
entered or left, the entering of the initial state included, and at most one character is content,
in every grammar, on every line, with any settings and any listener, strictly and leniently, up to
the last moment of a run that ends early.  The actions for a character never set each other off for
ever: a run that ends as endless has read as many characters as it may, and the line goes on. -/
theorem turns_bounded (L : Listener StateName τ) {b : StateName} (hroot : b.isRoot = true)
    (settings : Settings) (strict : Bool) (text : Text) (gathered : τ) (limit : Nat) :
    (∀ place,
      countAt Signal.isTurn place (after (readFrom grammar (Listener.recording L) b limit)
        (Session.start settings strict text (#[], gathered))).gathered.1 ≤ 4 ∧
      countAt Signal.isContent place (after (readFrom grammar (Listener.recording L) b limit)
        (Session.start settings strict text (#[], gathered))).gathered.1 ≤ 1) ∧
    ∀ t, readFrom grammar (Listener.recording L) b limit
        (Session.start settings strict text (#[], gathered)) = .error .endless t →
      (t.context.atEnd = false ∧ t.context.location = limit) ∨ L.SaysEndless := by
  have hends := ends_readFrom_sparse (L := L) hroot settings strict text gathered limit
  cases hrun : readFrom grammar (Listener.recording L) b limit
      (Session.start settings strict text (#[], gathered)) with
  | ok a t =>
    rw [after_of_ok hrun]
    refine ⟨hends.ok hrun, fun _ hendless => ?_⟩
    cases hendless
  | error fault t =>
    rw [after_of_error hrun]
    refine ⟨(hends.error hrun).1, ?_⟩
    rintro _ ⟨⟩
    exact (hends.error hrun).2 rfl

/-- The gap after the name of an operation leaves three states and enters the arguments. -/
theorem turns_bounded_of_operation :
    countAt Signal.isTurn 3 (after (readFrom grammar (Listener.recording Listener.silent) .command 5)
        (Session.start {} true ":op x".toList (#[], ()))).gathered.1 = 4 ∧
      ∀ place, countAt Signal.isTurn place
        (after (readFrom grammar (Listener.recording Listener.silent) .command 5)
          (Session.start {} true ":op x".toList (#[], ()))).gathered.1 ≤ 4 :=
  ⟨by decide +kernel, fun place =>
    ((turns_bounded Listener.silent (b := .command) rfl {} true ":op x".toList () 5).1 place).1⟩

end
end CommandLine
