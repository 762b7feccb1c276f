/-
# `CommandLine.Proofs.Nesting` — which states are active at once

The active states of a run are nested as the table `holds` says, from the state that the run
started in up to the innermost one (`Nested`).  This is what makes the grammars safe: a state is
only ever left where the state below it can go on, and no state takes an action that it has no
meaning for.

Three facts about the table of states carry the proof.

    a state is left       the state below goes on, perhaps by being left as well    (`secure_return`)
    a state is entered    it is one that the state below can hold                   (`secure_enter`)
    a character comes     the action of the innermost state is `lawful`             (`secure_dispatch`)

Entering a state can perform its action for the same character at once.  Such states follow one
another in a fixed order, so this ends (`height`).  Whether all actions are lawful is computed from
the table.

What a listener may be told is up to the guard of a run.  It must let nested states be left
(`Releases`) and, where a character is handled, be entered (`Guides`).  Two things are kept open:
whether names of commands and operations may be left, because what can follow depends on it, and
whether states may be entered from one that no state holds, which only happens where that one is
innermost when the character comes.
-/
import CommandLine.Grammar
import CommandLine.Proofs.Secure

namespace CommandLine

/-! ## The table -/

namespace StateName

/-- The states that can be entered from a state. -/
def holds : StateName → List StateName
  | command => [commandName, address, argumentList]
  | address => [nodeSeparator, operationSeparator, headerList, node, propertyList]
  | node => [nodeQuotes, nodeEscape]
  | nodeQuotes => [nodeEscape]
  | operationSeparator => [operationName]
  | propertyList => [property]
  | property => [propertyValue, escape]
  | propertyValue | headerValue | argumentValue | brackets | parentheses | braces =>
    [brackets, parentheses, braces, quotes, backQuotes, escape]
  | headers => [headerList]
  | headerList => [header]
  | header => [headerValue]
  | argumentList => [argument, outputTarget, argumentValue]
  | argument => [nameValueSeparator]
  | nameValueSeparator => [argumentValue]
  | quotes | backQuotes | typedQuotes | typedBackQuotes => [escape]
  | typedStart => [typedValue]
  | typedValue => [typedQuotes, typedBackQuotes, escape]
  | value | list | object => [list, object, bytes, valueQuotes, valueEscape]
  | valueQuotes => [valueEscape]
  | commandName | nodeSeparator | nodeEscape | operationName | outputTarget | escape | bytes
  | valueEscape => []

/-- A run can start in the state, which is then never left before the end of the line. -/
def isRoot : StateName → Bool
  | command | argumentList | headers | typedStart | value => true
  | _ => false

/-- The name of a command or of an operation is read in the state. -/
def isName : StateName → Bool
  | commandName | operationName => true
  | _ => false

/-- The items of a structured value stand in the state. -/
def holdsItems : StateName → Bool
  | value | list | object => true
  | _ => false

/-- No state holds the state. -/
def isBase (x : StateName) : Bool := all.all fun y => !y.holds.contains x

theorem isBase_eq_false {x y : StateName} (held : x ∈ y.holds) : x.isBase = false := by
  rw [isBase, List.all_eq_false]
  refine ⟨y, mem_all y, ?_⟩
  rw [List.contains_iff_mem.2 held]
  exact nofun

/-- The state `x` can be entered from the state `y` on the character. -/
def opensOn (y x : StateName) (d : Char) : Bool :=
  match x with
  | nodeSeparator => d == '/'
  | operationSeparator => d == ':'
  | propertyList => d == '('
  | headerList => y == headers || d == '{'
  | nameValueSeparator | propertyValue => d == '='
  | outputTarget => d == '>'
  | argumentList => Text.isGap d
  | _ => true

/-- The state can be left on the character. -/
def closesOn (x : StateName) (d : Char) : Bool :=
  match x with
  | propertyList => d == ')'
  | headerList => d == '}'
  | commandName | address => Text.isGap d
  | _ => true

/-- How many states can be entered on one character, each by the first action of the one before. -/
def height : StateName → Nat
  | command => 3
  | address | headers | operationName => 2
  | headerList | propertyList | argumentList | nameValueSeparator | typedStart => 1
  | _ => 0

end StateName

open StateName

/-- The active states, the innermost first, are nested in the state at the bottom. -/
inductive Nested (bottom : StateName) : List StateName → Prop
  | bottom (root : bottom.isRoot = true) : Nested bottom [bottom]
  | inside {x y : StateName} {outer : List StateName} (held : x ∈ y.holds)
      (rest : Nested bottom (y :: outer)) : Nested bottom (x :: y :: outer)

namespace Nested

variable {b x : StateName} {outer active : List StateName}

theorem ne_nil (h : Nested b active) : active ≠ [] := by
  cases h <;> exact nofun

/-- A state in which no run starts is held by another one. -/
theorem holder (h : Nested b (x :: outer)) (hx : x.isRoot = false) :
    ∃ y rest, outer = y :: rest ∧ x ∈ y.holds ∧ Nested b (y :: rest) := by
  cases h with
  | bottom root => exact absurd (root.symm.trans hx) nofun
  | inside held rest => exact ⟨_, _, rfl, held, rest⟩

/-- A state that only one other state holds. -/
theorem holder_eq (h : Nested b (x :: outer)) {y : StateName} (hx : x.isRoot = false)
    (hy : ∀ z ∈ StateName.all, x ∈ z.holds → z = y) :
    ∃ rest, outer = y :: rest ∧ Nested b (y :: rest) := by
  obtain ⟨z, rest, rfl, held, hz⟩ := h.holder hx
  obtain rfl := hy z (mem_all z) held
  exact ⟨rest, rfl, hz⟩

/-- Items stand in a structured value only. -/
theorem bottom_of_holdsItems (h : Nested b (x :: outer)) (hx : x.holdsItems = true) :
    b = value := by
  induction outer generalizing x with
  | nil =>
    cases h with
    | bottom root => cases b <;> first | rfl | exact absurd root (by decide) | exact absurd hx (by decide)
  | cons y rest ih =>
    cases h with
    | inside held rest =>
      refine ih rest ?_
      cases x <;> cases hx <;> cases y <;> first | rfl | exact absurd held (by decide)

theorem bottom_mem (h : Nested b active) : b ∈ active := by
  induction h with
  | bottom root => exact List.mem_cons_self
  | inside held rest ih => exact List.mem_cons_of_mem _ ih

end Nested

/-- The active states of a run that reads a structured value. -/
def ReadsItems (bottom : StateName) (active : List StateName) : Prop :=
  bottom = value ∧ Nested bottom active

/-! ## Leaving a state -/

section

variable {b x y : StateName} {outer : List StateName} {names : Bool}
  {guard : Signal StateName → List StateName → Prop} {reads : List StateName → Prop}
  {character : Option Char} {Q : List StateName → Prop}

/-- The state can be left on the character, or the line has ended. -/
def Closes (character : Option Char) (x : StateName) : Prop :=
  ∀ d ∈ character, x.closesOn d = true

/-- The character is a gap, or the line has ended. -/
def GapOrEnd (character : Option Char) : Prop := ∀ d ∈ character, Text.isGap d = true

theorem Closes.of_some {d : Char} (hd : character = some d) (hx : x.closesOn d = true) :
    Closes character x := by
  rintro e he
  cases hd.symm.trans he
  exact hx

/-- On a character the guard lets nested states be left that end there, names only if they are
included, and lets the arguments follow a command after a gap. -/
structure Releases (b : StateName) (names : Bool) (character : Option Char)
    (guard : Signal StateName → List StateName → Prop) : Prop where
  leaving : ∀ {x outer}, (x.isName = true → names = true) → x.isRoot = false →
    Closes character x → Nested b (x :: outer) → guard (.leaving x) (x :: outer)
  arguments : ∀ {d outer}, character = some d → Text.isGap d = true →
    Nested b (argumentList :: outer) → guard (.entered argumentList) (argumentList :: outer)

/-- A state that is neither a name nor at the bottom can be left. -/
theorem Releases.plain (releases : Releases b names character guard) (h : Nested b (x :: outer))
    (hx : (x.isName || x.isRoot) = false) (hcloses : Closes character x) :
    guard (.leaving x) (x :: outer) := by
  rw [Bool.or_eq_false_iff] at hx
  exact releases.leaving (fun hname => absurd (hx.1.symm.trans hname) nofun) hx.2 hcloses h

/-- What a command holds is followed by its arguments after a gap. -/
theorem Closes.gapOrEnd (h : Closes character x) (held : x ∈ command.holds)
    (hroot : x.isRoot = false) : GapOrEnd character := by
  intro d hd
  have hx := h d hd
  cases x <;> first | exact hx | exact absurd held (by decide) | cases hroot

/-- No state does anything before it is left. -/
theorem onLeave_grammar (x : StateName) : (grammar x).onLeave = .skip := by
  cases x <;> rfl

/-- `Q` holds of all that can be active once the states of a list go on; at the end of the line
nothing is added to them. -/
def Resumes (b : StateName) (character : Option Char) (active : List StateName)
    (Q : List StateName → Prop) : Prop :=
  ∀ inner, Nested b inner → (character = none → inner.length ≤ active.length) → Q inner

theorem Resumes.self (h : Resumes b character (x :: outer) Q) (hx : Nested b (x :: outer)) :
    Q (x :: outer) := h _ hx fun _ => Nat.le_refl _

theorem Resumes.below (h : Resumes b character (x :: outer) Q) :
    Resumes b character outer Q := fun inner hinner hlength =>
  h inner hinner fun hc => Nat.le_succ_of_le (hlength hc)

/-- A state is left, and the one below goes on. -/
theorem secure_leave {n : Nat} (hx : guard (.leaving x) (x :: y :: outer))
    (hreturn : Secure grammar guard reads character (n + 1) (grammar y).onReturn Q
      (y :: outer)) :
    Secure grammar guard reads character (n + 2) .leave Q (x :: y :: outer) := by
  show Secure grammar guard reads character (n + 1) (grammar x).onLeave _ (x :: y :: outer)
  rw [onLeave_grammar]
  exact ⟨hx, hreturn⟩

theorem secure_leaveOnGap {n : Nat} {active : List StateName}
    (hleave : ∀ {d}, character = some d → Text.isGap d = true →
      Secure grammar guard reads character (n + 1) .leave Q active)
    (hstay : Q active) :
    Secure grammar guard reads character (n + 1) .leaveOnGap Q active := by
  cases character with
  | none => exact hstay
  | some d =>
    show if Text.isGap d = true then _ else _
    split
    · next hgap => exact hleave rfl hgap
    · exact hstay

theorem secure_leaveOn {n : Nat} {active : List StateName} (characters : Text)
    (hleave : ∀ {d}, character = some d → characters.contains d = true →
      Secure grammar guard reads character (n + 1) .leave Q active)
    (hstay : Q active) :
    Secure grammar guard reads character (n + 1) (.leaveOn characters) Q active := by
  cases character with
  | none => exact hstay
  | some d =>
    show if characters.contains d = true then _ else _
    split
    · next hon => exact hleave rfl hon
    · exact hstay

section

variable (releases : Releases b names character guard)
include releases

namespace Secure

/-! ### The states that go on by being left -/

theorem return_command (n : Nat) (h : Nested b (command :: outer)) (hgap : GapOrEnd character)
    (hQ : Resumes b character (command :: outer) Q) :
    Secure grammar guard reads character (n + 2) (grammar command).onReturn Q
      (command :: outer) := by
  have hlist : Nested b (argumentList :: command :: outer) := .inside (by decide) h
  show if character.isNone then _ else _
  cases hd : character with
  | none => exact hQ.self h
  | some d =>
    exact ⟨releases.arguments hd (hgap d hd) hlist, hQ _ hlist fun hnone => by cases hd.symm.trans hnone⟩

theorem return_address (n : Nat) (h : Nested b (address :: outer))
    (hQ : Resumes b character (address :: outer) Q) :
    Secure grammar guard reads character (n + 3) (grammar address).onReturn Q
      (address :: outer) := by
  obtain ⟨rest, rfl, hy⟩ := h.holder_eq (y := command) rfl (by decide)
  refine secure_leaveOnGap (fun {d} hd hgap => ?_) (hQ.self h)
  have hcloses : Closes character address := .of_some hd hgap
  exact secure_leave (releases.plain h rfl hcloses)
    (return_command releases n hy (hcloses.gapOrEnd (by decide) rfl) hQ.below)

theorem return_operationSeparator (n : Nat) (h : Nested b (operationSeparator :: outer))
    (hQ : Resumes b character (operationSeparator :: outer) Q) :
    Secure grammar guard reads character (n + 4) (grammar operationSeparator).onReturn Q
      (operationSeparator :: outer) := by
  obtain ⟨rest, rfl, hy⟩ := h.holder_eq (y := address) rfl (by decide)
  exact secure_leave (releases.plain h rfl fun _ _ => rfl) (return_address releases n hy hQ.below)

theorem return_propertyList (n : Nat) (h : Nested b (propertyList :: outer))
    (hQ : Resumes b character (propertyList :: outer) Q) :
    Secure grammar guard reads character (n + 4) (grammar propertyList).onReturn Q
      (propertyList :: outer) := by
  obtain ⟨rest, rfl, hy⟩ := h.holder_eq (y := address) rfl (by decide)
  refine secure_leaveOn _ (fun hd hon => ?_) (hQ.self h)
  have hcloses : Closes character propertyList := .of_some hd (by simpa [closesOn] using hon)
  exact secure_leave (releases.plain h rfl hcloses) (return_address releases n hy hQ.below)

theorem return_property (n : Nat) (h : Nested b (property :: outer))
    (hQ : Resumes b character (property :: outer) Q) :
    Secure grammar guard reads character (n + 5) (grammar property).onReturn Q
      (property :: outer) := by
  obtain ⟨rest, rfl, hy⟩ := h.holder_eq (y := propertyList) rfl (by decide)
  exact secure_leaveOn _ (fun _ _ => secure_leave (releases.plain h rfl fun _ _ => rfl)
    (return_propertyList releases n hy hQ.below)) (hQ.self h)

theorem return_headerList (n : Nat) (h : Nested b (headerList :: outer))
    (hQ : Resumes b character (headerList :: outer) Q) :
    Secure grammar guard reads character (n + 4) (grammar headerList).onReturn Q
      (headerList :: outer) := by
  obtain ⟨y, rest, rfl, held, hy⟩ := h.holder rfl
  have holders : ∀ z ∈ StateName.all, headerList ∈ z.holds → z = address ∨ z = headers := by
    decide
  refine secure_leaveOn _ (fun hd hon => secure_leave (releases.plain h rfl ?_) ?_) (hQ.self h)
  · exact Closes.of_some hd (by simpa [closesOn] using hon)
  · rcases holders y (mem_all y) held with rfl | rfl
    · exact return_address releases n hy hQ.below
    · exact hQ.below.self hy

theorem return_header (n : Nat) (h : Nested b (header :: outer))
    (hQ : Resumes b character (header :: outer) Q) :
    Secure grammar guard reads character (n + 5) (grammar header).onReturn Q
      (header :: outer) := by
  obtain ⟨rest, rfl, hy⟩ := h.holder_eq (y := headerList) rfl (by decide)
  exact secure_leaveOn _ (fun _ _ => secure_leave (releases.plain h rfl fun _ _ => rfl)
    (return_headerList releases n hy hQ.below)) (hQ.self h)

theorem return_argument (n : Nat) (h : Nested b (argument :: outer))
    (hQ : Resumes b character (argument :: outer) Q) :
    Secure grammar guard reads character (n + 2) (grammar argument).onReturn Q
      (argument :: outer) := by
  obtain ⟨rest, rfl, hy⟩ := h.holder_eq (y := argumentList) rfl (by decide)
  exact secure_leave (releases.plain h rfl fun _ _ => rfl) (hQ.below.self hy)

theorem return_nameValueSeparator (n : Nat) (h : Nested b (nameValueSeparator :: outer))
    (hQ : Resumes b character (nameValueSeparator :: outer) Q) :
    Secure grammar guard reads character (n + 3) (grammar nameValueSeparator).onReturn Q
      (nameValueSeparator :: outer) := by
  obtain ⟨rest, rfl, hy⟩ := h.holder_eq (y := argument) rfl (by decide)
  exact secure_leave (releases.plain h rfl fun _ _ => rfl) (return_argument releases n hy hQ.below)

end Secure

/-- Whatever state is innermost now, it can go on; a command goes on after a gap. -/
theorem secure_return (n : Nat) (h : Nested b (x :: outer))
    (hgap : x = command → GapOrEnd character) (hQ : Resumes b character (x :: outer) Q) :
    Secure grammar guard reads character (n + 5) (grammar x).onReturn Q (x :: outer) := by
  cases x with
  | command => exact Secure.return_command releases (n + 3) h (hgap rfl) hQ
  | address => exact Secure.return_address releases (n + 2) h hQ
  | operationSeparator => exact Secure.return_operationSeparator releases (n + 1) h hQ
  | propertyList => exact Secure.return_propertyList releases (n + 1) h hQ
  | property => exact Secure.return_property releases n h hQ
  | headerList => exact Secure.return_headerList releases (n + 1) h hQ
  | header => exact Secure.return_header releases n h hQ
  | argument => exact Secure.return_argument releases (n + 3) h hQ
  | nameValueSeparator => exact Secure.return_nameValueSeparator releases (n + 2) h hQ
  | _ => exact hQ.self h

/-- Every state but the one at the bottom can be left, if the guard lets it, what a command holds
after a gap. -/
theorem secure_leave_inside (n : Nat) (hx : guard (.leaving x) (x :: y :: outer))
    (hgap : y = command → GapOrEnd character) (h : Nested b (x :: y :: outer))
    (hQ : Resumes b character (y :: outer) Q) :
    Secure grammar guard reads character (n + 6) .leave Q (x :: y :: outer) := by
  cases h with
  | inside held rest => exact secure_leave hx (secure_return releases n rest hgap hQ)

end

/-! ## Handling a character -/

namespace StateName

/-- A state can be entered from another one on a character; if it performs its action for the
character at once, its height is below the limit. -/
def admits (limit : Nat) (d : Char) (x y : StateName) : Bool :=
  x.holds.contains y && opensOn x y d &&
    match (grammar y).onEnter with
    | .skip | .content | .leave => true
    | .dispatch => y.height < limit
    | _ => false

/-- The action has a meaning in the state on a character and leaves it at most once. -/
def simple (x : StateName) (d : Char) : Action StateName → Bool
  | .skip | .content => true
  | .leave | .contentAndLeave => !x.isRoot && x.closesOn d
  | .enter y | .escape y => admits x.height d x y
  | .startValue y => x.holdsItems && admits x.height d x y
  | .startBraces y z => x.holdsItems && admits x.height d x y && admits x.height d x z
  | .endItem | .endName => x.holdsItems
  | _ => false

/-- The action has a meaning in the state on a character.  A node and the name of an operation are
left for another part of the address. -/
def lawful (x : StateName) (d : Char) : Action StateName → Bool
  | .besideSeparator _ _ otherwise => simple x d otherwise
  | .chain [.leave, .enter y] =>
    (x == node || x == operationName) && !Text.isGap d && admits x.height d address y
  | action => simple x d action

theorem lawful_transitions (x : StateName) :
    (grammar x).transitions.all fun t => t.1.all fun d => lawful x d t.2 := by
  cases x <;> decide

theorem lawful_gapAction (x : StateName) {d : Char} (hd : Text.isGap d = true) :
    lawful x d (grammar x).gapAction = true := by
  have table : Text.gapCharacters.all (fun e => lawful x e (grammar x).gapAction) = true := by
    cases x <;> rfl
  exact List.all_eq_true.1 table d (List.contains_iff_mem.1 hd)

theorem lawful_otherwise (x : StateName) (d : Char) :
    lawful x d (grammar x).otherwise = true := by
  cases x <;> rfl

/-- A name does not act on the character that it is entered on. -/
theorem isName_eq_false_of_onEnter {x : StateName} (hx : (grammar x).onEnter = .dispatch) :
    x.isName = false := by
  cases x <;> first | rfl | exact absurd hx nofun

/-- The only state that is left as soon as it is entered. -/
theorem eq_nodeSeparator_of_onEnter {x : StateName} (hx : (grammar x).onEnter = .leave) :
    x = nodeSeparator := by
  cases x <;> first | rfl | exact absurd hx nofun

/-- In every state every character has a lawful action. -/
theorem lawful_actionFor (x : StateName) (d : Char) :
    lawful x d ((grammar x).actionFor [d]) = true :=
  State.actionFor_each (lawful_transitions x) (lawful_gapAction x) (lawful_otherwise x) d

end StateName

/-- On a character the guard lets nested states be left, entered and told content and items; they
are entered from a state that no state holds only if such states are included. -/
structure Guides (b : StateName) (names bases : Bool) (character : Option Char)
    (guard : Signal StateName → List StateName → Prop) : Prop
    extends Releases b names character guard where
  entered : ∀ {d x y outer}, (y.isBase = true → bases = true) → character = some d →
    opensOn y x d = true → Nested b (x :: y :: outer) → guard (.entered x) (x :: y :: outer)
  content : ∀ {active}, Nested b active → guard .content active
  itemEnd : ∀ {active}, Nested b active → guard .itemEnd active
  nameEnd : ∀ {active}, Nested b active → guard .nameEnd active

/-- Whatever is told while the active states are nested is allowed. -/
theorem guides_nested : Guides b true true character fun _ => Nested b where
  leaving _ _ _ h := h
  arguments _ _ h := h
  entered _ _ _ h := h
  content h := h
  itemEnd h := h
  nameEnd h := h

section

variable {bases : Bool} {d : Char} {m n : Nat} (guides : Guides b names bases (some d) guard)
  (hdispatch : ∀ (n : Nat) (y : StateName) (outer : List StateName)
    (Q : List StateName → Prop), m ≤ n → y.height < x.height → y.isName = false →
    y.isBase = false → Nested b (y :: outer) →
    (∀ inner, Nested b inner → Q inner) →
    Secure grammar guard (ReadsItems b) (some d) (n + 6)
      ((grammar y).actionFor [d]) Q (y :: outer))
  (hn : m ≤ n) (hQ : ∀ inner, Nested b inner → Q inner)
include guides hdispatch hn hQ

theorem secure_enter {z : StateName} (h : Nested b (z :: outer))
    (hz : z.isBase = true → bases = true) (hy : admits x.height d z y = true) :
    Secure.enterBy grammar guard
      (Secure grammar guard (ReadsItems b) (some d) (n + 7)) y Q
      (z :: outer) := by
  rw [admits, Bool.and_eq_true, Bool.and_eq_true, List.contains_iff_mem] at hy
  obtain ⟨⟨held, hopens⟩, hfirst⟩ := hy
  have hinside : Nested b (y :: z :: outer) := .inside held h
  refine ⟨guides.entered hz rfl hopens hinside, ?_⟩
  revert hfirst
  cases hfirst : (grammar y).onEnter with
  | skip => exact fun _ => hQ _ hinside
  | content => exact fun _ => ⟨guides.content hinside, hQ _ hinside⟩
  | leave =>
    intro _
    obtain rfl := eq_nodeSeparator_of_onEnter hfirst
    have hcloses : Closes (some d) nodeSeparator := fun _ _ => rfl
    exact secure_leave_inside guides.toReleases (n + 1) (guides.plain hinside rfl hcloses)
      (fun hz => hcloses.gapOrEnd (hz ▸ held) rfl) hinside fun inner hinner _ => hQ inner hinner
  | dispatch =>
    intro hheight
    rw [secure_dispatch_succ]
    exact hdispatch n y _ Q hn (of_decide_eq_true hheight) (isName_eq_false_of_onEnter hfirst)
      (isBase_eq_false held) hinside hQ
  | _ => exact nofun

theorem secure_simple {a : Action StateName} (h : Nested b (x :: outer))
    (hx : x.isName = true → names = true) (hbase : x.isBase = true → bases = true)
    (ha : simple x d a = true) :
    Secure grammar guard (ReadsItems b) (some d) (n + 8) a Q
      (x :: outer) := by
  have hstay : Q (x :: outer) := hQ _ h
  have entering {y : StateName} := secure_enter (y := y) guides hdispatch hn hQ h hbase
  have leaving (hleave : (!x.isRoot && x.closesOn d) = true) :
      Secure grammar guard (ReadsItems b) (some d) (n + 8) .leave Q
        (x :: outer) := by
    rw [Bool.and_eq_true, Bool.not_eq_true'] at hleave
    obtain ⟨hroot, hcloses⟩ := hleave
    replace hcloses : Closes (some d) x := .of_some rfl hcloses
    obtain ⟨y, rest, rfl, held, -⟩ := h.holder hroot
    exact secure_leave_inside guides.toReleases (n + 2) (guides.leaving hx hroot hcloses h)
      (fun hy => hcloses.gapOrEnd (hy ▸ held) hroot) h fun inner hinner _ => hQ inner hinner
  have reading (hitems : x.holdsItems = true) : b = value ∧ Nested b (x :: outer) :=
    ⟨h.bottom_of_holdsItems hitems, h⟩
  cases a with
  | skip => exact hstay
  | content => exact ⟨guides.content h, hstay⟩
  | leave => exact leaving ha
  | contentAndLeave => exact ⟨guides.content h, leaving ha⟩
  | enter y => exact entering ha
  | escape y => exact ⟨entering ha, fun _ => ⟨guides.content h, hstay⟩⟩
  | startValue y =>
    rw [simple, Bool.and_eq_true] at ha
    exact ⟨reading ha.1, entering ha.2, guides.content h, hstay⟩
  | startBraces y z =>
    rw [simple, Bool.and_eq_true, Bool.and_eq_true] at ha
    exact ⟨reading ha.1.1, entering ha.1.2, entering ha.2, guides.content h, hstay⟩
  | endItem => exact ⟨reading ha, guides.itemEnd h, hstay⟩
  | endName => exact ⟨reading ha, guides.nameEnd h, guides.content h, hstay⟩
  | _ => nomatch ha

/-- A node or the name of an operation is left for another part of the address. -/
theorem secure_leave_enter {y : StateName} (h : Nested b (x :: outer))
    (hname : x.isName = true → names = true) (hx : x = node ∨ x = operationName) (hgap : Text.isGap d = false)
    (hy : admits x.height d address y = true) :
    Secure grammar guard (ReadsItems b) (some d) (n + 9)
      (.chain [.leave, .enter y]) Q (x :: outer) := by
  -- the address stays, because the character is no gap, and the other part is entered from it
  have next {rest : List StateName} (haddress : Nested b (address :: rest)) (k : Nat) :
      Secure grammar guard (ReadsItems b) (some d) (k + 1)
        (grammar address).onReturn
        (Secure grammar guard (ReadsItems b) (some d) (n + 8)
          (.enter y) Q) (address :: rest) := by
    show if Text.isGap d = true then _ else _
    rw [hgap]
    exact secure_enter guides hdispatch hn hQ haddress
      (fun hbase => absurd hbase (by decide)) hy
  rw [secure_chain_pair]
  rcases hx with rfl | rfl
  · obtain ⟨rest, rfl, haddress⟩ := h.holder_eq (y := address) rfl (by decide)
    exact secure_leave (guides.plain h rfl fun _ _ => rfl) (next haddress (n + 6))
  · obtain ⟨rest, rfl, hseparator⟩ := h.holder_eq (y := operationSeparator) rfl (by decide)
    obtain ⟨rest', rfl, haddress⟩ := hseparator.holder_eq (y := address) rfl (by decide)
    exact secure_leave (guides.leaving hname rfl (fun _ _ => rfl) h)
      (secure_leave (guides.plain hseparator rfl fun _ _ => rfl) (next haddress (n + 5)))

theorem secure_lawful {a : Action StateName} (h : Nested b (x :: outer))
    (hx : x.isName = true → names = true) (hbase : x.isBase = true → bases = true)
    (ha : lawful x d a = true) :
    Secure grammar guard (ReadsItems b) (some d) (n + 9) a Q
      (x :: outer) := by
  unfold lawful at ha
  split at ha
  · exact ⟨hQ _ h, secure_simple guides hdispatch hn hQ h hx hbase ha⟩
  · simp only [Bool.and_eq_true, Bool.or_eq_true, beq_iff_eq, Bool.not_eq_true'] at ha
    exact secure_leave_enter guides hdispatch hn hQ h hx ha.1.1 ha.1.2 ha.2
  · exact secure_simple guides hdispatch (Nat.le_succ_of_le hn) hQ h hx hbase ha

end

/-- Whatever character comes, the innermost state has an action for it that keeps the active
states nested. -/
theorem secure_actionFor {bases : Bool} {d : Char} (guides : Guides b names bases (some d) guard)
    (n : Nat) (h : Nested b (x :: outer)) (hx : x.isName = true → names = true)
    (hbase : x.isBase = true → bases = true) (hQ : ∀ inner, Nested b inner → Q inner) :
    Secure grammar guard (ReadsItems b) (some d)
      (n + 3 * x.height + 9) ((grammar x).actionFor [d]) Q (x :: outer) := by
  induction hk : x.height using Nat.strongRecOn generalizing x outer Q n with
  | ind k ih =>
    refine secure_lawful (m := 3 * k) guides (fun l y rest R hl hheight hname hheld hy hR => ?_)
      (by omega) hQ h hx hbase (lawful_actionFor x d)
    rw [hk] at hheight
    have := ih y.height hheight (l - 3 * y.height - 3) hy
      (fun hy => absurd (hname.symm.trans hy) nofun)
      (fun hy => absurd (hheld.symm.trans hy) nofun) hR rfl
    rwa [show l - 3 * y.height - 3 + 3 * y.height + 9 = l + 6 by omega] at this

end

/-! ## Whole runs -/

section

variable {b x y : StateName} {active outer : List StateName} {names : Bool}
  {guard : Signal StateName → List StateName → Prop} {reads : List StateName → Prop}
  {character : Option Char} {limit : Nat} {Q : List StateName → Prop}

open Machine in
theorem secure_dispatch {bases : Bool} {d : Char} (guides : Guides b names bases (some d) guard)
    (h : Nested b active) (hnames : ∀ x ∈ active.head?, x.isName = true → names = true)
    (hbases : ∀ x ∈ active.head?, x.isBase = true → bases = true)
    (hQ : ∀ inner, Nested b inner → Q inner) :
    Secure.dispatchBy grammar (some d)
      (Secure grammar guard (ReadsItems b) (some d) actionLimit) Q active := by
  cases active with
  | nil => exact absurd rfl h.ne_nil
  | cons x outer =>
    have hheight : x.height ≤ 3 := by cases x <;> decide
    have := secure_actionFor guides (991 - 3 * x.height) h (hnames x rfl) (hbases x rfl) hQ
    rwa [show 991 - 3 * x.height + 3 * x.height + 9 = actionLimit by
      rw [actionLimit]; omega] at this

theorem secure_enter_root (hroot : b.isRoot = true) (hguard : guard (.entered b) [b])
    (hQ : Q [b]) :
    Secure.enterBy grammar guard (Secure grammar guard reads character (limit + 1)) b Q [] := by
  refine ⟨hguard, ?_⟩
  have hfirst : (grammar b).onEnter = .skip := by
    cases b <;> first | rfl | exact absurd hroot (by decide)
  rw [hfirst]
  exact hQ

/-- At the end of the line a state complains at most. -/
theorem secure_onEnd (hQ : Q (x :: outer)) :
    Secure grammar guard reads character (limit + 1) (grammar x).onEnd Q (x :: outer) := by
  have hend : (grammar x).onEnd = .skip ∨ ∃ delimiter, (grammar x).onEnd = .notFinished delimiter := by
    cases x <;> first | exact .inl rfl | exact .inr ⟨_, rfl⟩
  rcases hend with h | ⟨delimiter, h⟩
  · rw [h]
    exact hQ
  · rw [h]
    exact ⟨trivial, List.cons_ne_nil _ _, hQ⟩

/-- At the end of the line every state but the one at the bottom can be left, and nothing is
entered. -/
theorem secure_leave_end (releases : Releases b names none guard)
    (hx : guard (.leaving x) (x :: y :: outer)) (h : Nested b (x :: y :: outer))
    (hQ : ∀ inner, Nested b inner → inner.length ≤ outer.length + 1 → Q inner) :
    Secure.leaveBy grammar guard (Secure grammar guard reads none (limit + 5)) Q
      (x :: y :: outer) := by
  rw [← secure_leave_succ]
  exact secure_leave_inside releases limit hx (fun _ _ hd => by cases hd) h
    fun inner hinner hlength => hQ inner hinner (hlength rfl)

theorem secure_leave_bottom (hx : guard (.leaving x) [x]) (hQ : Q []) :
    Secure.leaveBy grammar guard (Secure grammar guard reads character (limit + 1)) Q
      [x] := by
  show Secure grammar guard reads character (limit + 1) (grammar x).onLeave _ [x]
  rw [onLeave_grammar]
  exact ⟨hx, hQ⟩

end
end CommandLine
