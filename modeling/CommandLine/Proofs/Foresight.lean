/-
# `CommandLine.Proofs.Foresight` — looking around for a separator

Four states of the command grammar look around on a gap: whether only gaps stand between it and a
separator decides whether the gap is skipped.  No other action reads the line away from the cursor.
So a character is handled alike on two lines that show the same character, if a look, where there
is one, gives the same answer on both (`Context.foresees`).

    on a gap            the action of the state may look; what it sets off looks no further, for
                        it is calm: no state is entered that handles the gap at once
    on another          no action looks
    at the end          every action is calm
-/
import CommandLine.Proofs.Nesting
import CommandLine.Proofs.Tandem

namespace CommandLine

open Machine

/-! ## Actions that look around -/

namespace Action

/-- The action performs no other one for the same character. -/
def isQuiet {σ : Type} : Action σ → Bool
  | skip | content | leave => true
  | _ => false

/-- The action neither looks around nor lets a state handle the character under the cursor. -/
def isCalm (action : Action StateName) : Bool :=
  match action with
  | dispatch | chain _ | besideSeparator _ _ _ => false
  | _ => action.mayEnter.all fun x => (grammar x).onEnter.isQuiet

/-- The action may look around, and is calm otherwise. -/
def isWatchful : Action StateName → Bool
  | besideSeparator _ _ otherwise => otherwise.isCalm
  | action => action.isCalm

/-- The action does not look around. -/
def isSightless {σ : Type} : Action σ → Bool
  | besideSeparator _ _ _ => false
  | chain actions => actions.all fun a =>
    match a with
    | besideSeparator _ _ _ | chain _ => false
    | _ => true
  | _ => true

theorem isCalm_of_isQuiet {action : Action StateName} (h : action.isQuiet = true) :
    action.isCalm = true := by
  cases action <;> first | rfl | cases h

theorem isSightless_of_mem {σ : Type} {actions : List (Action σ)} {a : Action σ}
    (h : (chain actions).isSightless = true) (ha : a ∈ actions) : a.isSightless = true := by
  have := List.all_eq_true.1 h a ha
  cases a <;> first | rfl | cases this

end Action

/-! ## The table of states -/

theorem isCalm_onReturn (x : StateName) : (grammar x).onReturn.isCalm = true := by
  cases x <;> rfl

theorem isCalm_onEnd (x : StateName) : (grammar x).onEnd.isCalm = true := by
  cases x <;> rfl

theorem isCalm_onLeave (x : StateName) : (grammar x).onLeave.isCalm = true := by
  rw [onLeave_grammar]
  rfl

theorem isSightless_onEnter (x : StateName) : (grammar x).onEnter.isSightless = true := by
  cases x <;> rfl

theorem isSightless_of_isCalm {action : Action StateName} (h : action.isCalm = true) :
    action.isSightless = true := by
  cases action <;> first | rfl | cases h

/-- On a gap a state looks around at most once. -/
theorem isWatchful_actionFor (x : StateName) {d : Char} (hgap : Text.isGap d = true) :
    ((grammar x).actionFor [d]).isWatchful = true := by
  have hkeys : (grammar x).transitions.all fun t => !t.1.any Text.isGap := by
    cases x <;> decide
  have hgapAction : (grammar x).gapAction.isWatchful = true := by
    cases x <;> rfl
  rw [State.actionFor_singleton, hgap]
  cases h : (grammar x).transitions.lookup [d] with
  | none => exact hgapAction
  | some action =>
    obtain ⟨before, later, htable, -⟩ := List.lookup_eq_some_iff.1 h
    have := List.all_eq_true.1 hkeys ([d], action)
      (htable ▸ List.mem_append_right _ List.mem_cons_self)
    simp [hgap] at this

/-- On any other character no state looks around; on a gap some states do not, either. -/
theorem isSightless_actionFor (x : StateName) {d : Char}
    (hgap : Text.isGap d = true → (grammar x).gapAction.isSightless = true) :
    ((grammar x).actionFor [d]).isSightless = true := by
  have htransitions : (grammar x).transitions.all fun t => t.2.isSightless := by
    cases x <;> rfl
  have hotherwise : (grammar x).otherwise.isSightless = true := by
    cases x <;> rfl
  rw [State.actionFor_singleton]
  cases h : (grammar x).transitions.lookup [d] with
  | none =>
    cases hd : Text.isGap d with
    | true => exact hgap hd
    | false => exact hotherwise
  | some action =>
    obtain ⟨before, later, htable, -⟩ := List.lookup_eq_some_iff.1 h
    exact List.all_eq_true.1 htransitions ([d], action)
      (htable ▸ List.mem_append_right _ List.mem_cons_self)

/-! ## Arguments -/

namespace StateName

/-- The state is active in a list of arguments only, or in a value. -/
def isArgumentPart : StateName → Bool
  | argumentList | argument | nameValueSeparator | argumentValue | outputTarget | brackets
  | parentheses | braces | quotes | backQuotes | escape => true
  | _ => false

/-- No part of an argument looks around. -/
theorem isSightless_gapAction {x : StateName} (h : x.isArgumentPart = true) :
    (grammar x).gapAction.isSightless = true := by
  cases x <;> first | rfl | cases h

end StateName

open StateName in
/-- Parts of arguments hold parts of arguments only. -/
theorem Nested.isArgumentPart {active : List StateName} (h : Nested argumentList active)
    {x : StateName} (hx : x ∈ active) : x.isArgumentPart = true := by
  have closed : ∀ y ∈ StateName.all, y.isArgumentPart = true →
      ∀ z ∈ y.holds, z.isArgumentPart = true := by
    decide
  induction h generalizing x with
  | bottom root =>
    obtain rfl := List.mem_singleton.1 hx
    rfl
  | @inside y z outer held rest ih =>
    rcases List.mem_cons.1 hx with rfl | hx
    · exact closed z (mem_all z) (ih List.mem_cons_self) _ held
    · exact ih hx

/-! ## Two lines at one place -/

/-- The look of the current state around the cursor, if it takes one on this character, gives the
same answer on a line that reads as the text. -/
def Context.foresees (c : Context StateName) (text : Text) : Bool :=
  match c.frame? with
  | none => true
  | some f =>
    match (grammar f.state).actionFor c.character with
    | .besideSeparator following preceding _ =>
      { c with line := Line.ofText text }.isBesideSeparator following preceding ==
        c.isBesideSeparator following preceding
    | _ => true

theorem Context.foresees_of_isSightless {c : Context StateName} (text : Text)
    (h : ∀ f, c.frame? = some f → ((grammar f.state).actionFor c.character).isSightless = true) :
    c.foresees text = true := by
  unfold foresees
  cases hframe : c.frame? with
  | none => rfl
  | some f =>
    have hsightless := h f hframe
    dsimp only
    generalize (grammar f.state).actionFor c.character = action at hsightless ⊢
    cases action <;> first | rfl | cases hsightless

/-- The only footing and location of a moment. -/
def Footing.Moment (f : Footing) (location : Nat) (g : Footing) (m : Nat) : Prop :=
  g = f ∧ m = location

section

variable {τ : Type} {L : Listener StateName τ} {t : Session StateName τ} {F : Footing}
  {K : Action StateName → Prop}

/-- Two footings are in concord at one moment if they show the same character there and the looks
of the class give the same answers. -/
theorem concord_moment (hstrict : F.strict = t.context.strict) (halike : t.context.SeesAlike F)
    (hlooks : ∀ {following preceding : Text} {a : Action StateName},
      K (.besideSeparator following preceding a) →
      (t.context.onto F).isBesideSeparator following preceding =
        t.context.isBesideSeparator following preceding)
    (hclosed : ∀ {a b : Action StateName}, K a → a.SetsOff grammar b → K b)
    (hdispatched : ∀ x : StateName, K .dispatch → K ((grammar x).actionFor t.context.character)) :
    Concord grammar (fun _ => F) (t.context.footing.Moment t.context.location) K := by
  -- at that moment every context reads the line as the one of the session does
  have hsame {c : Context StateName}
      (hc : c.Within (t.context.footing.Moment t.context.location)) :
      c.line = t.context.line ∧ c.strict = t.context.strict ∧ c.location = t.context.location :=
    ⟨congrArg Footing.line hc.1, congrArg Footing.strict hc.1, hc.2⟩
  constructor
  · intro c hc hF
    rw [(hsame hc).2.1, ← hstrict]
    exact hF
  · intro c hc
    obtain ⟨hline, -, hlocation⟩ := hsame hc
    exact halike.of_eq hline hlocation
  · intro c following preceding a hc ha
    have h := hlooks ha
    obtain ⟨hline, -, hlocation⟩ := hsame hc
    simp only [Context.isBesideSeparator, Context.nextSolid?, Context.lastSolid?, Context.input,
      Context.line_onto, Context.location_onto] at h ⊢
    rw [hline, hlocation, h]
  · exact hclosed
  · intro c x hc hK
    obtain ⟨hline, -, hlocation⟩ := hsame hc
    have hcharacter : c.character = t.context.character := by
      rw [Context.character, Context.character?, Context.input, hline, hlocation]
      rfl
    rw [hcharacter]
    exact hdispatched x hK

theorem isCalm_of_setsOff {a b : Action StateName} (ha : a.isCalm = true)
    (hb : a.SetsOff grammar b) : b.isCalm = true := by
  cases hb with
  | last x _ => exact isCalm_onLeave x
  | returned x _ => exact isCalm_onReturn x
  | @first _ x hx =>
    have hall : a.mayEnter.all fun x => (grammar x).onEnter.isQuiet := by
      cases a <;> first | exact ha | rfl
    exact Action.isCalm_of_isQuiet (List.all_eq_true.1 hall x hx)
  | chained _ => cases ha
  | otherwise => cases ha

theorem isCalm_of_setsOff_watchful {a b : Action StateName} (ha : a.isWatchful = true)
    (hb : a.SetsOff grammar b) : b.isCalm = true := by
  cases a with
  | besideSeparator following preceding otherwise =>
    cases hb with
    | last x h => cases h
    | returned x h => cases h
    | first hx => cases hx
    | otherwise => exact ha
  | _ =>
    refine isCalm_of_setsOff ?_ hb
    exact ha

theorem isSightless_of_setsOff {a b : Action StateName} (ha : a.isSightless = true)
    (hb : a.SetsOff grammar b) : b.isSightless = true := by
  cases hb with
  | last x _ => exact isSightless_of_isCalm (isCalm_onLeave x)
  | returned x _ => exact isSightless_of_isCalm (isCalm_onReturn x)
  | @first _ x _ => exact isSightless_onEnter x
  | chained hmem => exact Action.isSightless_of_mem ha hmem
  | otherwise => cases ha

theorem strict_of_moment (hstrict : F.strict = t.context.strict) (c : Context StateName)
    (hc : c.Within (t.context.footing.Moment t.context.location)) : F.strict = c.strict :=
  hstrict.trans (congrArg Footing.strict hc.1).symm

variable (hL : L.IsLocal) (hstrict : F.strict = t.context.strict)
  (halike : t.context.SeesAlike F)
include hL hstrict halike

/-- A character that is no gap is handled alike. -/
theorem dispatch_sightless {d : Char} (hd : t.context.character? = some d)
    (hgap : Text.isGap d = false) :
    dispatch grammar L (t.via fun _ => F) = carry (fun _ => F) (dispatch grammar L t) := by
  have hcharacter : t.context.character = [d] := by
    rw [Context.character, hd]
    rfl
  have concord := concord_moment (K := fun a => a.isSightless = true) hstrict halike
    (fun h => absurd h Bool.false_ne_true)
    isSightless_of_setsOff fun x _ =>
      hcharacter ▸ isSightless_actionFor x fun h => absurd h (ne_true_of_eq_false hgap)
  exact (Tandem.dispatch concord hL rfl).same_of_strict (strict_of_moment hstrict) ⟨rfl, rfl⟩

/-- A gap is handled alike if the look that is taken on it gives the same answer. -/
theorem dispatch_watchful {d : Char} (hd : t.context.character? = some d)
    (hgap : Text.isGap d = true) {text : Text} (hline : F.line = Line.ofText text)
    (hforesees : t.context.foresees text = true) :
    dispatch grammar L (t.via fun _ => F) = carry (fun _ => F) (dispatch grammar L t) := by
  have hcharacter : t.context.character = [d] := by
    rw [Context.character, hd]
    rfl
  have hvia : (t.via fun _ => F).context.character = [d] := halike.character.trans hcharacter
  unfold dispatch
  rw [dispatchBy_eq, context_bind_apply, context_bind_apply, hcharacter, hvia,
    show (t.via fun _ => F).context.frame? = t.context.frame? from rfl]
  cases hframe : t.context.frame? with
  | none => rfl
  | some f =>
    have hwatchful := isWatchful_actionFor f.state hgap
    unfold Context.foresees at hforesees
    rw [hframe, hcharacter] at hforesees
    dsimp only at hforesees ⊢
    generalize (grammar f.state).actionFor [d] = action at hwatchful hforesees
    -- only this action may look; what it sets off is calm
    have concord := concord_moment (K := fun a => a.isCalm = true ∨ a = action) hstrict halike
      (fun {following preceding a} ha => ?_) (fun {a b} ha hb => ?_) fun x hx => ?_
    · exact (Tandem.act concord hL (.inr rfl)).same_of_strict (strict_of_moment hstrict) ⟨rfl, rfl⟩
    · rcases ha with ha | rfl
      · cases ha
      · rw [beq_iff_eq] at hforesees
        rw [← hforesees, Context.isBesideSeparator, Context.isBesideSeparator]
        simp only [Context.nextSolid?, Context.lastSolid?, Context.input, Context.line_onto, hline,
          Context.location_onto]
    · rcases ha with ha | rfl
      · exact .inl (isCalm_of_setsOff ha hb)
      · exact .inl (isCalm_of_setsOff_watchful hwatchful hb)
    · rcases hx with hx | rfl
      · cases hx
      · cases hwatchful

/-- At the end of the line all states are ended alike. -/
theorem finish_calm (hdepth : F.settings.maxDepth = t.context.settings.maxDepth) :
    finish grammar L (t.via fun _ => F) = carry (fun _ => F) (finish grammar L t) := by
  have concord := concord_moment (K := fun a => a.isCalm = true) hstrict halike
    (fun h => absurd h Bool.false_ne_true) isCalm_of_setsOff
    fun _ h => absurd h Bool.false_ne_true
  refine (Tandem.finish concord hL isCalm_onEnd isCalm_onLeave isCalm_onReturn
    fun c hc => ?_).same_of_strict (strict_of_moment hstrict) ⟨rfl, rfl⟩
  exact hdepth.trans (congrArg (fun f => f.settings.maxDepth) hc.1).symm

end
end CommandLine
