/-
# `CommandLine.State` — the states of a graph and the actions that characters set off

A state graph is a function from names to states.  A state says, for each character that can stand
under the cursor, which action to perform; further actions belong to entering it, leaving it,
coming back to it from an inner state and to the end of the line.  Actions are data: what they do
to a run is defined in `CommandLine.Machine`, and states refer to one another by name, so a graph
may be cyclic.

A state under construction can be changed until it is frozen; `State.edit` refuses to change a
frozen one.
-/
import CommandLine.Entries
import CommandLine.Error
import CommandLine.Text.Blank

namespace CommandLine

open Text

/-- What to do about the character under the cursor. -/
inductive Action (σ : Type) where
  /-- Nothing. -/
  | skip
  /-- Take the character as content. -/
  | content
  /-- Leave the current state. -/
  | leave
  /-- Take the character as content, then leave the current state. -/
  | contentAndLeave
  /-- Perform the current state's action for the character. -/
  | dispatch
  /-- An action without a meaning. -/
  | undefined
  /-- Enter a state. -/
  | enter (state : σ)
  /-- Enter a state where escapes are enabled, and take the character as content elsewhere. -/
  | escape (state : σ)
  /-- Perform several actions in order. -/
  | chain (actions : List (Action σ))
  /-- Complain that the value of the current state lacks its closing delimiter. -/
  | notFinished (delimiter : Text)
  /-- Switch escapes or expressions for the scope of the current state. -/
  | configure (escapes expressions : Option Bool)
  /-- Skip the gaps next to a separator: nothing happens when the next other character is one of
  `following` or the previous one is one of `preceding`. -/
  | besideSeparator (following preceding : Text) (otherwise : Action σ)
  /-- Leave the current state on a gap. -/
  | leaveOnGap
  /-- Leave the current state on one of the characters. -/
  | leaveOn (characters : Text)
  /-- Enter a state unless the line has ended. -/
  | enterUnlessEnd (state : σ)
  /-- Enter a state where a value can start, and take the character as content elsewhere. -/
  | startValue (state : σ)
  /-- Enter the first state where a value can start, the second one after the word that announces
  bytes, and take the character as content elsewhere. -/
  | startBraces (object bytes : σ)
  /-- End an item of a list or an object. -/
  | endItem
  /-- End the name of an item where a name can stand, and take the character as content
  elsewhere. -/
  | endName

/-- A state of a graph whose states are named by `σ`. -/
structure State (σ : Type) where
  /-- The name under which the state is reported. -/
  name : String
  /-- Gaps are skipped. -/
  ignoresGaps : Bool := false
  /-- A gap leaves the state. -/
  leavesOnGap : Bool := false
  /-- Entering the state marks the start of a value. -/
  marksValue : Bool := false
  /-- Entering the state keeps that mark in place until the state is left. -/
  locksValue : Bool := false
  /-- Whether escapes are enabled inside; the surrounding setting holds when absent. -/
  escapes : Option Bool := none
  /-- Whether expressions are resolved inside; the surrounding setting holds when absent. -/
  expressions : Option Bool := none
  /-- The actions of single characters. -/
  transitions : List (Text × Action σ) := []
  /-- Performed when the state has been entered. -/
  onEnter : Action σ := .skip
  /-- Performed for characters without an action of their own. -/
  otherwise : Action σ := .skip
  /-- Performed for gaps without an action of their own. -/
  onGap : Option (Action σ) := none
  /-- Performed when an inner state has been left. -/
  onReturn : Action σ := .skip
  /-- Performed before the state is left. -/
  onLeave : Action σ := .skip
  /-- Performed at the end of the line. -/
  onEnd : Action σ := .skip
  /-- The state is complete and never changes again. -/
  frozen : Bool := false

/-- A state graph. -/
abbrev Graph (σ : Type) := σ → State σ

/-- The graph of some states that are named by their labels; a name that none of them has stands
for a state that does nothing. -/
def Graph.ofList (states : List (State String)) : Graph String := fun name =>
  (states.find? fun s => s.name == name).getD { name := name }

namespace State

variable {σ : Type}

/-- The action for a gap that has none of its own. -/
def gapAction (s : State σ) : Action σ :=
  match s.onGap with
  | some action => action
  | none => if s.leavesOnGap then .leave else if s.ignoresGaps then .skip else s.otherwise

/-- The action for the character under the cursor; at the end of the line the text is empty. -/
def actionFor (s : State σ) (character : Text) : Action σ :=
  match s.transitions.lookup character with
  | some action => action
  | none => if isGapStretch character then s.gapAction else s.otherwise

/-- Makes the state final. -/
def freeze (s : State σ) : State σ := { s with frozen := true }

/-- Changes a state that is not frozen. -/
def edit (s : State σ) (change : State σ → State σ) : Except Defect (State σ) :=
  if s.frozen then .error (.frozenState s.name) else .ok (change s)

/-- Gives a character an action, in place of the one it may have. -/
def put (s : State σ) (character : Text) (action : Action σ) : State σ :=
  { s with transitions := Entries.insert character action s.transitions }

theorem actionFor_eq_of_lookup {s : State σ} {character : Text} {action : Action σ}
    (h : s.transitions.lookup character = some action) : s.actionFor character = action := by
  simp [actionFor, h]

/-- The action for a single character. -/
theorem actionFor_singleton (s : State σ) (c : Char) :
    s.actionFor [c] =
      (s.transitions.lookup [c]).getD (if isGap c then s.gapAction else s.otherwise) := by
  rw [actionFor, isGapStretch_singleton]
  cases s.transitions.lookup [c] <;> rfl

/-- What holds of each action of a state with its characters holds of the action for a character. -/
theorem actionFor_each {s : State σ} {P : Char → Action σ → Bool}
    (htransitions : s.transitions.all fun t => t.1.all fun d => P d t.2)
    (hgap : ∀ {d}, isGap d = true → P d s.gapAction = true)
    (hotherwise : ∀ d, P d s.otherwise = true) (d : Char) : P d (s.actionFor [d]) = true := by
  rw [actionFor_singleton]
  cases h : s.transitions.lookup [d] with
  | some action =>
    have hmem : ([d], action) ∈ s.transitions := by
      obtain ⟨before, after, htable, -⟩ := List.lookup_eq_some_iff.1 h
      rw [htable]
      exact List.mem_append_right _ List.mem_cons_self
    have := List.all_eq_true.1 htransitions _ hmem
    simpa using this
  | none =>
    cases hd : isGap d with
    | true => exact hgap hd
    | false => exact hotherwise d

/-- The action that a character was given last is its action. -/
theorem actionFor_put (s : State σ) (character : Text) (action : Action σ) :
    (s.put character action).actionFor character = action :=
  actionFor_eq_of_lookup (Entries.lookup_insert_self character action s.transitions)

/-- A frozen state refuses every change. -/
theorem edit_of_frozen {s : State σ} (h : s.frozen = true) (change : State σ → State σ) :
    s.edit change = .error (.frozenState s.name) := by
  simp [edit, h]

end State
end CommandLine
