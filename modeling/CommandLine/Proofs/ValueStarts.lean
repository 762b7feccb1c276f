/-
# `CommandLine.Proofs.ValueStarts` — where the values of arguments stand

Where the value of an argument starts is worked out from its name: the characters of the name and
one for the `=` after the start of the argument.  But names are trimmed, and in a property list
values are, too.  So the value stands where it is said to start as long as there are no blanks to be
trimmed off, and otherwise as many characters later as there are (`Command.values_stand`).

    the line says      the value is said to start      the value stands
    `-a=b`             at 3                            at 3
    `:op(a=b)`         at 6                            at 6
    `:op(a = b)`       at 6                            at 8

That a command holds arguments that stand in its line is carried along the run.  Before a character
the text that has been read ends at the cursor, and the token that is being read has come as far as
the active states say (`Current`).  A character is taken by one of these, and there is no state that
could take it twice or, while an argument is being read, pass it over:

    content        it joins the token                                        (`yields_content`)
    a separator    the state that is entered takes it                        (`yields_announce`)
    a delimiter    the states that it ends have no argument around them      (`secure_ends`)
    outside        nothing is being read, so it makes no difference          (`Current.pass`)

Entering a state can set off its own action for the same character; this ends as in
`secure_actionFor`.
-/
import CommandLine.Proofs.ArgumentLine
import CommandLine.Proofs.WrittenArguments

namespace CommandLine

open Machine StateName Text

/-! ## What characters do while an argument is being read -/

namespace StateName

/-- The character ends what is being read in the state, and the argument with it. -/
def endsArgument (x : StateName) (d : Char) : Bool :=
  match x with
  | argument | nameValueSeparator | argumentValue => true
  | property | propertyValue => d == ',' || d == ')'
  | _ => false

/-- The action does not lose the character if an argument is being read in the state. -/
def minds (x : StateName) (d : Char) : Action StateName → Bool
  | .content | .enter _ | .escape _ => true
  | .leave => x.endsArgument d
  | .contentAndLeave => x.isPart
  | _ => false

theorem minds_actionFor {x : StateName} (hx : (x.readsArgument || x.isPart) = true) (d : Char) :
    x.minds d ((grammar x).actionFor [d]) = true := by
  refine State.actionFor_each ?_ (fun _ => ?_) (fun _ => ?_) d
  · cases x <;> first | decide | exact absurd hx (by decide)
  · cases x <;> first | rfl | exact absurd hx (by decide)
  · cases x <;> first | rfl | exact absurd hx (by decide)

/-- What does nothing when it is entered is a separator, or it is outside of arguments. -/
theorem outside_of_onEnter {y : StateName} (hfirst : (grammar y).onEnter = .skip)
    (hy : ¬ (y = nameValueSeparator ∨ y = propertyValue)) :
    (y.readsArgument || y.isPart) = false := by
  cases y <;> first
    | rfl
    | exact absurd (.inl rfl) hy
    | exact absurd (.inr rfl) hy
    | cases hfirst

end StateName

/-! ## The states that are left -/

/-- The guard of a run that only leaves states.  What may be entered are the arguments, which follow
a command. -/
def leavingGuard (b : StateName) : Signal StateName → List StateName → Prop
  | .leaving _, active => Nested b active
  | .entered argumentList, active => Nested b active
  | _, _ => False

section

variable {b x y : StateName} {outer : List StateName} {d : Char} {character : Option Char} {n : Nat}

theorem releases_leavingGuard : Releases b true character (leavingGuard b) where
  leaving _ _ _ h := h
  arguments _ _ h := h

/-- No argument is being read in the active states. -/
def Clear (b : StateName) (active : List StateName) : Prop :=
  Nested b active ∧ stageOf active = .none

/-- On the character the innermost state can be left, and `Q` holds of the states that are active
then. -/
abbrev SecurelyLeft (b : StateName) (d : Char) (n : Nat) (Q : List StateName → Prop)
    (active : List StateName) : Prop :=
  Secure grammar (leavingGuard b) (fun _ => False) (some d) n .leave Q active

/-- A property ends on its delimiter. -/
theorem secure_ends_property (h : Nested b (property :: outer)) (hd : d = ',' ∨ d = ')') :
    SecurelyLeft b d (n + 5) (Clear b) (property :: outer) := by
  obtain ⟨rest, rfl, hlist⟩ := h.holder_eq (y := propertyList) rfl (by decide)
  obtain ⟨rest, rfl, haddress⟩ := hlist.holder_eq (y := address) rfl (by decide)
  rcases hd with rfl | rfl
  · exact ⟨h, hlist, rfl⟩
  · exact ⟨h, hlist, haddress, rfl⟩

/-- An argument ends with the state that is left on the character. -/
theorem secure_ends (h : Nested b (x :: outer)) (hx : x.endsArgument d = true) :
    SecurelyLeft b d (n + 6) (Clear b) (x :: outer) := by
  have ending {rest : List StateName} (hargument : Nested b (argument :: rest)) (k : Nat) :
      SecurelyLeft b d (k + 2) (Clear b) (argument :: rest) := by
    obtain ⟨rest, rfl, hlist⟩ := hargument.holder_eq (y := argumentList) rfl (by decide)
    exact ⟨hargument, hlist, rfl⟩
  cases x with
  | argument => exact ending h (n + 4)
  | nameValueSeparator =>
    obtain ⟨rest, rfl, hargument⟩ := h.holder_eq (y := argument) rfl (by decide)
    exact ⟨h, ending hargument (n + 3)⟩
  | argumentValue =>
    obtain ⟨y, rest, rfl, hy, rfl | rfl⟩ := h.argumentValue_holder
    · exact ⟨h, hy, rfl⟩
    · obtain ⟨rest, rfl, hargument⟩ := hy.holder_eq (y := argument) rfl (by decide)
      exact ⟨h, hy, ending hargument (n + 2)⟩
  | property =>
    rw [endsArgument, Bool.or_eq_true, beq_iff_eq, beq_iff_eq] at hx
    exact secure_ends_property h hx
  | propertyValue =>
    obtain ⟨rest, rfl, hproperty⟩ := h.holder_eq (y := property) rfl (by decide)
    rw [endsArgument, Bool.or_eq_true, beq_iff_eq, beq_iff_eq] at hx
    have hends := secure_ends_property (n := n) hproperty hx
    rcases hx with rfl | rfl <;> exact ⟨h, hends⟩
  | _ => cases hx

/-- Around a part of a text goes on what it is a part of; only the name of a property may end. -/
theorem secure_ends_part (h : Nested b (x :: outer)) (hx : x.isPart = true) :
    SecurelyLeft b d (n + 6)
      (fun inner => Nested b inner ∧ (inner = outer ∨ stageOf inner = .none)) (x :: outer) := by
  obtain ⟨y, rest, rfl, held, hy⟩ := h.holder (by cases x <;> first | rfl | cases hx)
  by_cases hproperty : y = property
  · subst hproperty
    obtain ⟨rest, rfl, hlist⟩ := hy.holder_eq (y := propertyList) rfl (by decide)
    obtain ⟨rest, rfl, haddress⟩ := hlist.holder_eq (y := address) rfl (by decide)
    refine secure_leave h (secure_leaveOn _ (fun {e} he hon => ?_) ⟨hy, .inl rfl⟩)
    obtain rfl := Option.some.inj he
    rw [List.contains_cons, List.contains_cons, List.contains_nil, Bool.or_false, Bool.or_eq_true,
      beq_iff_eq, beq_iff_eq] at hon
    rcases hon with rfl | rfl
    · exact ⟨hy, hlist, .inr rfl⟩
    · exact ⟨hy, hlist, haddress, .inr rfl⟩
  · have hskip := (onReturn_of_holds_part held hx).resolve_left hproperty
    refine secure_leave (n := n + 4) h ?_
    rw [hskip]
    exact ⟨hy, .inl rfl⟩

end

/-! ## Sessions that hold what has been read -/

/-- The listener that makes a command of a line. -/
abbrev Command.listener : Listener StateName (Reader × Command) := Reader.listener handler

namespace Machine

section

variable {σ τ α : Type}

/-- If the program goes through, `Q` holds of the session that it ends with. -/
abbrev Yields (Q : Session σ τ → Prop) (p : Machine σ τ α) (s : Session σ τ) : Prop :=
  Ends (fun _ _ => True) (fun _ t => Q t) p s

end

variable {α : Type} {b x y : StateName} {f : Footing} {location : Nat}
  {active outer : List StateName} {d : Char} {read : Text} {stage : Stage} {n : Nat}
  {Q : List StateName → Prop} {s : Session StateName (Reader × Command)} {g : Reader × Command}

/-- Of a signal the session keeps what the reader and its command are told. -/
theorem yields_tell {J K : List StateName → Reader × Command → Prop} (signal : Signal StateName)
    (hs : s.Stands J f location active)
    (hK : K active (Reader.told s.context s.gathered.1 s.gathered.2 signal)) :
    Yields (Session.Stands K f location active)
      (tell Command.listener signal) s := by
  have hheard : (heard Command.listener signal s).Stands K f location active :=
    ⟨hs.footing_eq, hs.location_eq, hs.active_eq, hK⟩
  refine .tell (fun _ => hheard) (fun _ => .complain (fun _ => trivial) fun _ => ?_)
    fun _ => trivial
  exact ⟨hheard.footing_eq, hheard.location_eq, hheard.active_eq, hheard.kept⟩

/-- The reader of a command reads no structured values. -/
theorem yields_place {k : Place → Machine StateName (Reader × Command) α}
    {P : Session StateName (Reader × Command) → Prop} :
    Yields P (place Command.listener >>= k) s :=
  .of_error (bind_apply_of_error (place_apply _ s) k) trivial

/-- Where states are only left the session holds what it held, up to the same stage. -/
theorem governs_leavings (f : Footing) (stage : Stage)
    (hread : location = read.length ∨ location + 1 = read.length) :
    Governs grammar Command.listener
      { guard := leavingGuard b, reads := fun _ => False } (f.character? location)
      (fun active s => s.Stands (Held read stage) f location active) fun _ _ => True where
  active_eq hs := hs.active_eq
  character_eq hs := character?_of_stands hs
  literal _ _ := trivial
  enters {x outer s} hguard hs := by
    cases x with
    | argumentList =>
      refine (ends_opening argumentList hs trivial).bind fun _ t ht => ?_
      have hheld : Held read stage (argumentList :: outer)
          (Reader.told t.context t.gathered.1 t.gathered.2 (.entered argumentList)) :=
        Held.spares ht.kept (Reader.spares_entered_argumentList _ _ _)
          (fun hmem => (List.mem_cons.1 hmem).resolve_left nofun) rfl
      exact yields_tell _ ht hheld
    | _ => exact hguard.elim
  leaves {x outer s} hguard hs := by
    have hleaves := Held.leaves hs.kept hguard hs.active_eq (hs.location_eq ▸ hread)
    exact (yields_tell (K := fun _ => Held read stage outer) _ hs hleaves).bind fun _ _ ht =>
      ends_closing ht
  tells {signal active s} hstill hguard _ := by
    cases signal with
    | entered x | leaving x => cases hstill
    | _ => exact hguard.elim
  complains delimiter _ hs := ends_notFinished delimiter hs fun _ _ => trivial
  places hreads _ := hreads.elim

/-- The session holds what has been read of the line with its first characters. -/
def Current (f : Footing) (count : Nat) (active : List StateName) (g : Reader × Command) : Prop :=
  Held (f.line.substituted.take count) (stageOf active) active g

/-- Where no argument is being read it makes no difference how far the line has been read. -/
theorem Current.of_outside {k m : Nat} (h : Held (f.line.substituted.take k) .none active g)
    (hkm : k ≤ m) : Current f m active g := by
  have hnone : stageOf active = .none := by
    rcases h.token with hnone | ⟨hnone | ⟨-, hvalue⟩, -⟩
    · exact hnone
    · exact hnone
    · cases hvalue
  exact Held.grow h hnone (List.take_prefix_take_left hkm) _

/-- Outside of arguments a character can be passed over. -/
theorem Current.pass (h : Current f location active g) (hnone : stageOf active = .none) :
    Current f (location + 1) active g :=
  Held.grow h hnone (List.take_prefix_take_left (Nat.le_succ _)) _

theorem take_succ_of_character (hd : f.character? location = some d) :
    f.line.substituted.take (location + 1) = f.line.substituted.take location ++ [d] := by
  rw [List.take_add_one, show f.line.substituted[location]? = some d from hd]
  rfl

theorem length_take_of_character (hd : f.character? location = some d) :
    (f.line.substituted.take location).length = location := by
  have hcharacter : f.line.substituted[location]? = some d := hd
  obtain ⟨hinside, -⟩ := List.getElem?_eq_some_iff.1 hcharacter
  exact List.length_take_of_le hinside.le

/-- The run stands where the next character has been taken. -/
abbrev Taken (b : StateName) (f : Footing) (location : Nat)
    (s : Session StateName (Reader × Command)) : Prop :=
  s.Settles (Current f (location + 1)) f location (Nested b)

/-- What the state does about the character takes it, wherever the state is innermost. -/
def Takes (b : StateName) (f : Footing) (location : Nat) (d : Char) (limit : Nat)
    (x : StateName) : Prop :=
  ∀ (outer : List StateName) (s : Session StateName (Reader × Command)), Nested b (x :: outer) →
    s.Stands (Current f location) f location (x :: outer) →
    Yields (Taken b f location) (actUpTo grammar Command.listener limit ((grammar x).actionFor [d]))
      s

section

variable (hd : f.character? location = some d)
include hd

/-- A character is content. -/
theorem yields_content (hs : s.Stands (Current f location) f location active) :
    Yields (Session.Stands (Current f (location + 1)) f location active)
      (tell Command.listener .content) s := by
  have hcharacter : s.context.character? = some d := (character?_of_stands hs).trans hd
  have hcontent : Current f (location + 1) active
      (Reader.told s.context s.gathered.1 s.gathered.2 .content) := by
    rw [Current, take_succ_of_character hd]
    exact Held.content hs.kept hcharacter
  exact yields_tell _ hs hcontent

/-- States are left before or after the character is content. -/
theorem yields_left {k : Nat} (hk : k = location ∨ k = location + 1)
    (hsecure : SecurelyLeft b d n Q active) (hs : s.Stands (Current f k) f location active) :
    Yields (Session.Settles (Held (f.line.substituted.take k) (stageOf active)) f location Q)
      (actUpTo grammar Command.listener n .leave) s := by
  have hread : location = (f.line.substituted.take k).length ∨
      location + 1 = (f.line.substituted.take k).length := by
    rcases hk with rfl | rfl
    · exact .inl (length_take_of_character hd).symm
    · right
      rw [take_succ_of_character hd, List.length_append, length_take_of_character hd]
      rfl
  have governs := governs_leavings (b := b) f (stageOf active) hread
  rw [hd] at governs
  exact governs.actUpTo n hsecure ⟨hs.footing_eq, hs.location_eq, hs.active_eq, hs.kept⟩

theorem yields_leave {k : Nat} (hk : k = location ∨ k = location + 1)
    (hsecure : SecurelyLeft b d n Q active)
    (hQ : ∀ inner g, Q inner → Held (f.line.substituted.take k) (stageOf active) inner g →
      Nested b inner ∧ Current f (location + 1) inner g)
    (hs : s.Stands (Current f k) f location active) :
    Yields (Taken b f location) (actUpTo grammar Command.listener n .leave) s := by
  refine (yields_left hd hk hsecure hs).mono (fun _ _ h => h) fun _ t ht => ?_
  obtain ⟨inner, hinner, ht⟩ := ht
  obtain ⟨hnested, hcurrent⟩ := hQ inner t.gathered hinner ht.kept
  exact ⟨inner, hnested, ht.1, ht.2, ht.3, hcurrent⟩

/-- States outside of arguments are left. -/
theorem yields_leave_outside {k : Nat} (hk : k = location ∨ k = location + 1)
    (hsecure : SecurelyLeft b d n (Nested b) active) (hnone : stageOf active = .none)
    (hs : s.Stands (Current f k) f location active) :
    Yields (Taken b f location) (actUpTo grammar Command.listener n .leave) s := by
  refine yields_leave hd hk hsecure (fun inner g hinner hheld => ⟨hinner, ?_⟩) hs
  rw [hnone] at hheld
  exact .of_outside hheld (by omega)

/-- An argument ends on the character. -/
theorem yields_leave_argument (h : Nested b (x :: outer)) (hx : x.endsArgument d = true)
    (hs : s.Stands (Current f location) f location (x :: outer)) :
    Yields (Taken b f location) (actUpTo grammar Command.listener (n + 6) .leave)
      s := by
  refine yields_leave hd (.inl rfl) (secure_ends h hx) (fun inner g hinner hheld => ?_) hs
  exact ⟨hinner.1, hheld.grow hinner.2 (List.take_prefix_take_left (Nat.le_succ _)) _⟩

/-- A part of a text ends with the character. -/
theorem yields_leave_part (h : Nested b (x :: outer)) (hx : x.isPart = true)
    (hs : s.Stands (Current f (location + 1)) f location (x :: outer)) :
    Yields (Taken b f location) (actUpTo grammar Command.listener (n + 6) .leave)
      s := by
  refine yields_leave hd (.inr rfl) (secure_ends_part h hx) (fun inner g hinner hheld => ?_) hs
  refine ⟨hinner.1, ?_⟩
  rcases hinner.2 with rfl | hnone
  · rwa [stageOf_of_isPart hx] at hheld
  · exact hheld.at_none hnone

/-- A state is entered on the character, and where it is a separator the character has been taken
with that. -/
theorem yields_announce (h : Nested b (y :: outer)) {k : Nat}
    (hk : k = if y = nameValueSeparator ∨ y = propertyValue then location + 1 else location)
    (hopens : y = nameValueSeparator ∨ y = propertyValue → d = '=')
    (hs : s.Stands (Current f location) f location outer) :
    Yields (Session.Stands (Current f k) f location (y :: outer))
      (announce grammar Command.listener y) s := by
  have hlength := length_take_of_character hd
  refine (ends_opening y hs trivial).bind fun _ t ht => ?_
  have hheld : Current f k (y :: outer)
      (Reader.told t.context t.gathered.1 t.gathered.2 (.entered y)) := by
    subst hk
    split
    · next hseparator =>
      obtain rfl := hopens hseparator
      rw [Current, take_succ_of_character hd]
      refine Held.separates ht.kept h ?_ ?_
      · rw [hlength, ht.location_eq]
      · simpa using hseparator
    · next hseparator =>
      refine Held.enters ht.kept h ht.active_eq ?_ ?_
      · rw [hlength, ht.location_eq]
      · simpa using hseparator
  exact yields_tell _ ht hheld

/-- A state is entered on the character; what it does first can be to act on it at once. -/
theorem yields_enter {limit : Nat} (h : Nested b (x :: outer)) (hy : admits limit d x y = true)
    (hacts : y.height < limit → Takes b f location d (n + 6) y)
    (hs : s.Stands (Current f location) f location (x :: outer)) :
    Yields (Taken b f location) (enterBy grammar Command.listener
      (actUpTo grammar Command.listener (n + 7)) y) s := by
  rw [admits, Bool.and_eq_true, Bool.and_eq_true, List.contains_iff_mem] at hy
  obtain ⟨⟨held, hopens⟩, hfirst⟩ := hy
  have hinside : Nested b (y :: x :: outer) := .inside held h
  rw [enterBy_eq_announce]
  refine (yields_announce hd hinside rfl ?_ hs).bind fun _ t ht => ?_
  · rintro (rfl | rfl) <;> exact eq_of_beq hopens
  by_cases hseparator : y = nameValueSeparator ∨ y = propertyValue
  · rw [if_pos hseparator] at ht
    have hskip : (grammar y).onEnter = .skip := by rcases hseparator with rfl | rfl <;> rfl
    rw [hskip]
    exact .pure ⟨_, hinside, ht⟩
  · rw [if_neg hseparator] at ht
    revert hfirst
    cases hfirst : (grammar y).onEnter with
    | skip =>
      intro _
      have hnone : stageOf (y :: x :: outer) = .none :=
        stageOf_of_outside (outside_of_onEnter hfirst hseparator)
      exact .pure ⟨_, hinside, ht.imp fun hcurrent => hcurrent.pass hnone⟩
    | content =>
      exact fun _ => (yields_content hd ht).mono (fun _ _ h => h) fun _ u hu => ⟨_, hinside, hu⟩
    | leave =>
      intro _
      obtain rfl := eq_nodeSeparator_of_onEnter hfirst
      have hcloses : Closes (some d) nodeSeparator := fun _ _ => rfl
      refine yields_leave_outside hd (.inl rfl) ?_ rfl ht
      exact secure_leave_inside releases_leavingGuard (n + 1) hinside
        (fun hz => hcloses.gapOrEnd (hz ▸ held) rfl) hinside fun inner hinner _ => hinner
    | dispatch =>
      intro hheight
      exact ends_dispatchBy ht hd (hacts (of_decide_eq_true hheight) _ _ hinside ht)
    | _ => exact fun hfirst => absurd hfirst Bool.false_ne_true

/-- What the innermost state does about a character takes it. -/
theorem yields_simple {a : Action StateName} (h : Nested b (x :: outer))
    (ha : simple x d a = true)
    (hminds : (x.readsArgument || x.isPart) = true → x.minds d a = true)
    (hacts : ∀ y : StateName, y.height < x.height → Takes b f location d (n + 6) y)
    (hs : s.Stands (Current f location) f location (x :: outer)) :
    Yields (Taken b f location) (actUpTo grammar Command.listener (n + 8) a) s := by
  have content : Yields (Taken b f location) (tell Command.listener .content) s :=
    (yields_content hd hs).mono (fun _ _ h => h) fun _ _ ht => ⟨_, h, ht⟩
  have entering {y : StateName} (hy : admits x.height d x y = true) :=
    yields_enter hd h hy (hacts y) hs
  -- outside of arguments it makes no difference how states are left
  have hsecure (hleave : (!x.isRoot && x.closesOn d) = true) :
      SecurelyLeft b d (n + 8) (Nested b) (x :: outer) := by
    rw [Bool.and_eq_true, Bool.not_eq_true'] at hleave
    obtain ⟨hroot, hcloses⟩ := hleave
    replace hcloses : Closes (some d) x := .of_some rfl hcloses
    obtain ⟨y, rest, rfl, held, -⟩ := h.holder hroot
    exact secure_leave_inside releases_leavingGuard (n + 2) h
      (fun hy => hcloses.gapOrEnd (hy ▸ held) hroot) h fun inner hinner _ => hinner
  cases a with
  | skip =>
    cases houtside : x.readsArgument || x.isPart with
    | true => cases hminds houtside
    | false =>
      have hnone : stageOf (x :: outer) = .none := stageOf_of_outside houtside
      exact .pure ⟨_, h, hs.imp fun hcurrent => hcurrent.pass hnone⟩
  | content => exact content
  | leave =>
    cases houtside : x.readsArgument || x.isPart with
    | true => exact yields_leave_argument (n := n + 2) hd h (hminds houtside) hs
    | false =>
      exact yields_leave_outside hd (.inl rfl) (hsecure ha) (stageOf_of_outside houtside) hs
  | contentAndLeave =>
    refine (yields_content hd hs).bind fun _ t ht => ?_
    cases houtside : x.readsArgument || x.isPart with
    | true => exact yields_leave_part (n := n + 2) hd h (hminds houtside) ht
    | false =>
      exact yields_leave_outside hd (.inr rfl) (hsecure ha) (stageOf_of_outside houtside) ht
  | enter y => exact entering ha
  | escape y =>
    refine .read ?_
    split
    · exact entering ha
    · exact content
  | startValue y | startBraces y z | endItem | endName => exact yields_place
  | _ => nomatch ha

/-- A node or the name of an operation is left for another part of the address. -/
theorem yields_leave_enter (h : Nested b (x :: outer)) (hx : x = node ∨ x = operationName)
    (hgap : isGap d = false) (hy : admits x.height d address y = true)
    (hacts : y.height < x.height → Takes b f location d (n + 6) y)
    (hs : s.Stands (Current f location) f location (x :: outer)) :
    Yields (Taken b f location) (actUpTo grammar Command.listener (n + 9)
      (.chain [.leave, .enter y])) s := by
  -- the address stays, because the character is no gap
  have stays {rest : List StateName} (haddress : Nested b (address :: rest)) (k : Nat) :
      Secure grammar (leavingGuard b) (fun _ => False) (some d) (k + 1)
        (grammar address).onReturn (fun inner => ∃ rest, inner = address :: rest ∧ Nested b inner)
        (address :: rest) := by
    show if isGap d = true then _ else _
    rw [hgap]
    exact ⟨rest, rfl, haddress⟩
  have hsecure : SecurelyLeft b d (n + 8)
      (fun inner => ∃ rest, inner = address :: rest ∧ Nested b inner) (x :: outer) := by
    rcases hx with rfl | rfl
    · obtain ⟨rest, rfl, haddress⟩ := h.holder_eq (y := address) rfl (by decide)
      exact secure_leave h (stays haddress (n + 6))
    · obtain ⟨rest, rfl, hseparator⟩ := h.holder_eq (y := operationSeparator) rfl (by decide)
      obtain ⟨rest', rfl, haddress⟩ := hseparator.holder_eq (y := address) rfl (by decide)
      exact secure_leave h (secure_leave hseparator (stays haddress (n + 5)))
  have hnone : stageOf (x :: outer) = .none := by rcases hx with rfl | rfl <;> rfl
  refine Ends.bind (yields_left hd (.inl rfl) hsecure hs) fun _ t ht => ?_
  obtain ⟨inner, ⟨rest, rfl, hinner⟩, ht⟩ := ht
  have hcurrent : t.Stands (Current f location) f location (address :: rest) :=
    ht.imp fun hheld => Held.at_none (hnone ▸ hheld) rfl
  exact (yields_enter hd hinner hy hacts hcurrent).bind fun _ _ hu => .pure hu

theorem yields_lawful {a : Action StateName} (h : Nested b (x :: outer))
    (ha : lawful x d a = true)
    (hminds : (x.readsArgument || x.isPart) = true → x.minds d a = true)
    (hacts : ∀ (m : Nat) (y : StateName), n ≤ m → y.height < x.height →
      Takes b f location d (m + 6) y)
    (hs : s.Stands (Current f location) f location (x :: outer)) :
    Yields (Taken b f location) (actUpTo grammar Command.listener (n + 9) a)
      s := by
  unfold lawful at ha
  split at ha
  · next following preceding otherwise =>
    refine .read ?_
    cases houtside : x.readsArgument || x.isPart with
    | true => cases hminds houtside
    | false =>
      split
      · have hnone : stageOf (x :: outer) = .none := stageOf_of_outside houtside
        exact .pure ⟨_, h, hs.imp fun hcurrent => hcurrent.pass hnone⟩
      · exact yields_simple hd h ha (fun hx => absurd (houtside.symm.trans hx) nofun)
          (fun y => hacts n y (Nat.le_refl n)) hs
  · simp only [Bool.and_eq_true, Bool.or_eq_true, beq_iff_eq, Bool.not_eq_true'] at ha
    exact yields_leave_enter hd h ha.1.1 ha.1.2 ha.2
      (hacts n _ (Nat.le_refl n)) hs
  · exact yields_simple hd h ha hminds (fun y => hacts (n + 1) y (Nat.le_succ n)) hs

/-- Whatever character comes, the innermost state takes it. -/
theorem takes_actionFor (n : Nat) (x : StateName) :
    Takes b f location d (n + 3 * x.height + 9) x := by
  induction hk : x.height using Nat.strongRecOn generalizing x n with
  | ind k ih =>
    intro outer s h hs
    refine yields_lawful hd h (lawful_actionFor x d) (fun hx => minds_actionFor hx d)
      (fun m y hm hheight => ?_) hs
    rw [hk] at hheight
    have := ih y.height hheight (m - 3 * y.height - 3) y rfl
    rwa [show m - 3 * y.height - 3 + 3 * y.height + 9 = m + 6 by omega] at this

theorem yields_dispatch (h : Nested b active)
    (hs : s.Stands (Current f location) f location active) :
    Yields (Taken b f location) (dispatch grammar Command.listener) s := by
  cases active with
  | nil => exact absurd rfl h.ne_nil
  | cons x outer =>
    have hheight : x.height ≤ 3 := by cases x <;> decide
    have htakes : Takes b f location d _ x := takes_actionFor hd (991 - 3 * x.height) x
    rw [show 991 - 3 * x.height + 3 * x.height + 9 = actionLimit by rw [actionLimit]; omega]
      at htakes
    exact ends_dispatchBy hs hd (htakes _ _ h hs)

end

/-! ## Runs -/

/-- Between two characters the session holds what has been read of the line so far. -/
structure ReadsOn (b : StateName) (f : Footing) (s : Session StateName (Reader × Command)) :
    Prop where
  settles : s.Settles (Current f s.context.location) f s.context.location (Nested b)
  inside : s.context.location ≤ f.line.substituted.length

/-- All arguments stand in the line. -/
def AllStand (s : Session StateName (Reader × Command)) : Prop :=
  ∀ a ∈ s.gathered.2.arguments, a.StandsIn s.context.input

theorem carries_arguments (hplain : f.settings.substitutes = false) :
    Carries grammar Command.listener (ReadsOn b f) (fun _ _ => True)
      AllStand where
  prepares {s} hs := by
    obtain ⟨active, hnested, hstands⟩ := hs.settles
    have hsettings : s.context.settings = f.settings :=
      congrArg Footing.settings hstands.footing_eq
    exact .of_ok (prepare_of_plain (hsettings ▸ hplain)) hs
  handles {s} hs hinside := by
    obtain ⟨active, hnested, hstands⟩ := hs.settles
    rw [Context.atEnd_eq_isNone, Option.isNone_eq_false_iff, Option.isSome_iff_exists] at hinside
    obtain ⟨d, hd⟩ := hinside
    rw [character?_of_stands hstands] at hd
    refine Ends.bind (yields_dispatch hd hnested hstands) fun _ t ht => ?_
    obtain ⟨inner, hinner, ht⟩ := ht
    have hadvance := advance_apply t
    rw [Context.atEnd_eq_isNone, character?_of_stands ht, hd] at hadvance
    have hlocation : t.context.location + 1 = s.context.location + 1 :=
      congrArg (· + 1) ht.location_eq
    refine .of_ok hadvance ⟨⟨inner, hinner, ht.footing_eq, rfl, ht.active_eq, ?_⟩, ?_⟩
    · show Current f (t.context.location + 1) inner t.gathered
      rw [hlocation]
      exact ht.kept
    · show t.context.location + 1 ≤ _
      rw [hlocation]
      exact (List.getElem?_eq_some_iff.1 hd).1
  endless _ _ := trivial
  finishes {s} hs hend := by
    obtain ⟨active, hnested, hstands⟩ := hs.settles
    rw [Context.atEnd_eq_isNone, Option.isNone_iff_eq_none, character?_of_stands hstands] at hend
    have hlength : s.context.location = f.line.substituted.length :=
      hs.inside.antisymm (List.getElem?_eq_none_iff.1 hend)
    have governs := governs_leavings (b := b) f (stageOf active) (.inl hlength)
    rw [hend] at governs
    have hheld : Held f.line.substituted (stageOf active) active s.gathered := by
      have hkept := hstands.kept
      rwa [Current, hlength, List.take_length] at hkept
    refine (governs.finish (fun h => h) hnested ⟨hstands.footing_eq, rfl, hstands.active_eq,
      hheld⟩).mono (fun _ _ h => h) fun _ t ht => ?_
    obtain ⟨_, rfl, ht⟩ := ht
    have hinput : t.context.input = f.line.substituted :=
      congrArg (fun f => f.line.substituted) ht.footing_eq
    rw [AllStand, hinput]
    exact ht.kept.standing

/-- The run starts with nothing read. -/
theorem yields_enter_root (hroot : b.isRoot = true) (settings : Settings) (strict : Bool)
    (base : List Node) (text : Text) :
    Yields (ReadsOn b ⟨settings, strict, .ofText text⟩)
      (enter grammar Command.listener b)
      (.start settings strict text ({}, .relativeTo base)) := by
  have hempty : Held [] .none [] (({}, .relativeTo base) : Reader × Command) :=
    ⟨fun _ ha => absurd ha List.not_mem_nil, fun hmem => absurd hmem List.not_mem_nil, .inl rfl⟩
  have hstart : (Session.start settings strict text (({}, .relativeTo base) : Reader × Command) :
      Session StateName _).Stands (fun _ => Held [] .none []) ⟨settings, strict, .ofText text⟩ 0
        [] := ⟨rfl, rfl, rfl, hempty⟩
  have hfirst : (grammar b).onEnter = .skip := by
    cases b <;> first | rfl | exact absurd hroot (by decide)
  rw [enter, enterBy_eq, hfirst]
  refine (ends_opening b hstart trivial).bind fun _ t ht => ?_
  have hheld : Held [] (stageOf [b]) [b]
      (Reader.told t.context t.gathered.1 t.gathered.2 (.entered b)) := by
    refine Held.enters ht.kept (.bottom hroot) ht.active_eq ?_ ?_
    · rw [ht.location_eq]
      rfl
    · cases b <;> first | rfl | exact absurd hroot (by decide)
  refine (yields_tell (K := fun active => Held [] (stageOf active) active) _ ht hheld).bind
    fun _ u hu => .pure ⟨⟨[b], .bottom hroot, ?_⟩, ?_⟩
  · refine ⟨hu.footing_eq, rfl, hu.active_eq, ?_⟩
    rw [Current, hu.location_eq]
    exact hu.kept
  · rw [hu.location_eq]
    exact Nat.zero_le _

end Machine

/-! ## Values -/

namespace Argument

/-- The property has been read from its name alone, or from its name after `!`; its value is not
written. -/
def IsFlag (a : Argument) (text : Text) : Prop :=
  a.inPropertyList = true ∧ ∃ before raw, a.ReadFrom before raw text ∧
    (a.name = some (trim raw) ∧ a.value = some Reading.setValue ∨
      ∃ rest, trim raw = '!' :: rest ∧ a.name = some (trimStart rest) ∧
        a.value = some Reading.unsetValue)

/-- The text shows the argument with its value.  With the name come some blanks, around the name and
in a property list also before the value. -/
inductive Shows (a : Argument) (text value : Text) : Nat → Prop
  | positional {before back : Text} (hname : a.name = none) (hstart : a.start = before.length)
    (htext : text = before ++ (value ++ back)) : Shows a text value 0
  | named {before left name right inner back : Text} (hname : a.name = some name)
    (hstart : a.start = before.length) (hblank : isBlankText (left ++ right ++ inner) = true)
    (hinner : a.inPropertyList = false → inner = [])
    (htext : text = before ++ (left ++ (name ++ (right ++ '=' :: (inner ++ (value ++ back)))))) :
    Shows a text value (left ++ right ++ inner).length

variable {a : Argument} {text value : Text} {blanks : Nat}

/-- The value stands behind where it is said to start, by as many characters as there are blanks. -/
theorem Shows.between_eq (h : a.Shows text value blanks) :
    text.between (a.valueStart + blanks) (a.valueStart + blanks + value.length) = value := by
  cases h with
  | @positional before back hname hstart htext =>
    have hplace : a.valueStart + (0 : Nat) = before.length := by
      rw [valueStart, hname, Int.natCast_zero, Int.add_zero]
      exact hstart
    rw [hplace, htext, between_append]
  | @named before left name right inner back hname hstart hblank hinner htext =>
    have hplace : a.valueStart + (left ++ right ++ inner).length =
        (before ++ (left ++ (name ++ (right ++ '=' :: inner)))).length := by
      rw [valueStart, hname]
      simp only [hstart, List.length_append, List.length_cons, Int.natCast_add]
      omega
    have hfront : text =
        (before ++ (left ++ (name ++ (right ++ '=' :: inner)))) ++ (value ++ back) := by
      rw [htext]
      simp only [List.append_assoc, List.cons_append]
    rw [hplace, hfront, between_append]

/-- An argument that has a value is a flag, or the text shows it with its value. -/
theorem StandsIn.shows (h : a.StandsIn text) (hvalue : a.value = some value) :
    a.IsFlag text ∨ ∃ blanks, a.Shows text value blanks := by
  obtain ⟨before, raw, hread, hwords⟩ := h
  cases hwords with
  | positional hname hsome =>
    cases hsome.symm.trans hvalue
    obtain ⟨back, htext⟩ := hread.stands
    rw [List.append_assoc] at htext
    exact .inr ⟨0, .positional hname hread.start_eq htext.symm⟩
  | name _ hnone => cases hnone.symm.trans hvalue
  | @value front rest _ hname hsome hrest =>
    cases hsome.symm.trans hvalue
    obtain ⟨back, htext⟩ := hread.stands
    obtain ⟨left, right, hleft, hright, hfront⟩ := exists_trim front
    obtain ⟨inner, tail, hblank, hinner, hrest⟩ : ∃ inner tail, isBlankText inner = true ∧
        (a.inPropertyList = false → inner = []) ∧ rest = inner ++ (value ++ tail) := by
      rcases hrest with rfl | ⟨hlist, rfl | rfl⟩
      · exact ⟨[], [], rfl, fun _ => rfl, (List.append_nil _).symm⟩
      · obtain ⟨inner, tail, hblank, -, hrest⟩ := exists_trim rest
        exact ⟨inner, tail, hblank, fun hnone => absurd (hlist.symm.trans hnone) nofun, hrest⟩
      · obtain ⟨inner, hblank, hrest⟩ := exists_trimStart rest
        refine ⟨inner, [], hblank, fun hnone => absurd (hlist.symm.trans hnone) nofun, ?_⟩
        rwa [List.append_nil]
    have hshown : text = before ++ (left ++ (trim front ++
        (right ++ '=' :: (inner ++ (value ++ (tail ++ back)))))) := by
      rw [← htext, hrest]
      conv_lhs => rw [hfront]
      simp only [List.append_assoc, List.cons_append]
    refine .inr ⟨_, .named hname hread.start_eq ?_ hinner hshown⟩
    rw [isBlankText, List.all_append, List.all_append, Bool.and_eq_true, Bool.and_eq_true]
    exact ⟨⟨hleft, hright⟩, hblank⟩
  | set hlist hname hset => exact .inl ⟨hlist, before, raw, hread, .inl ⟨hname, hset⟩⟩
  | unset hlist hraw hname hunset =>
    exact .inl ⟨hlist, before, raw, hread, .inr ⟨_, hraw, hname, hunset⟩⟩

end Argument

/-! ## Arguments of a command -/

namespace Command

variable {settings : Settings} {strict : Bool} {entrance : Entrance} {base : List Node}
  {line : Option Text} {c : Command}

/-- Whatever the arguments of a command are, they stand in its line. -/
theorem standing_of_read (hplain : settings.substitutes = false)
    (hread : Command.read settings strict entrance base line = .ok c) :
    ∃ l, c.line = some l ∧ ∀ a ∈ c.arguments, a.StandsIn l.substituted := by
  obtain ⟨r, d, result, hgrammar, rfl⟩ := Command.exists_of_read hread
  refine ⟨result.line, rfl, ?_⟩
  show ∀ a ∈ d.arguments, _
  unfold Graph.read at hgrammar
  dsimp only at hgrammar
  split at hgrammar
  · cases hgrammar
    exact fun _ ha => absurd ha List.not_mem_nil
  · unfold Graph.readText at hgrammar
    split at hgrammar
    · next t hrun =>
      have hstands := ((Machine.carries_arguments hplain).readFrom _
        (Machine.yields_enter_root entrance.isRoot_state settings strict base _)).ok hrun
      have hgathered : t.gathered = (r, d) := congrArg Prod.fst hgrammar
      have hline : t.context.result = result := Except.ok.inj (congrArg Prod.snd hgrammar)
      rw [← hline, show d = t.gathered.2 by rw [hgathered]]
      exact hstands
    · exact absurd (congrArg Prod.snd hgrammar) nofun

/-- Where the values of arguments stand.  Whatever has been read without substitution, an argument
that has a value is a flag, which says no value, or its value stands in the line.  That is where the
value is said to start if there are no blanks around the name and before the value; otherwise it is
as many characters later as there are such blanks. -/
theorem values_stand (hplain : settings.substitutes = false)
    (hread : Command.read settings strict entrance base line = .ok c) :
    ∃ l, c.line = some l ∧ ∀ a ∈ c.arguments, ∀ value, a.value = some value →
      a.IsFlag l.substituted ∨ ∃ blanks, a.Shows l.substituted value blanks ∧
        l.substituted.between (a.valueStart + blanks) (a.valueStart + blanks + value.length) =
          value := by
  obtain ⟨l, hline, hstanding⟩ := standing_of_read hplain hread
  refine ⟨l, hline, fun a ha value hvalue => ?_⟩
  rcases (hstanding a ha).shows hvalue with hflag | ⟨blanks, hshows⟩
  · exact .inl hflag
  · exact .inr ⟨blanks, hshows, hshows.between_eq⟩

/-- An operation whose property has blanks around its `=`. -/
def spacedProperty : Text := [':', 'o', 'p', '(', 'a', ' ', '=', ' ', 'b', ')']

/-- Its property says `b`, and it stands after the six characters of `:op(a `. -/
theorem exists_spacedProperty :
    ∃ c, Command.read {} true .command [] (some spacedProperty) = .ok c ∧
      c.line = some (.ofText spacedProperty) ∧
      c.arguments = [⟨some ['a'], some ['b'], 4, 9, 0, true⟩] := by
  have hread : (Command.read {} true .command [] (some spacedProperty)).toOption.map
      (fun c => (c.line, c.arguments)) =
        some (some (.ofText spacedProperty), [⟨some ['a'], some ['b'], 4, 9, 0, true⟩]) := by
    decide +kernel
  obtain ⟨c, hc, hview⟩ := exists_of_toOption hread
  exact ⟨c, hc, congrArg Prod.fst hview, congrArg Prod.snd hview⟩

theorem values_stand_of_spacedProperty : ({} : Settings).substitutes = false ∧
    ∃ c, Command.read {} true .command [] (some spacedProperty) = .ok c ∧
      ∃ l, c.line = some l ∧ ∀ a ∈ c.arguments, ∀ value, a.value = some value →
        a.IsFlag l.substituted ∨ ∃ blanks, a.Shows l.substituted value blanks ∧
          l.substituted.between (a.valueStart + blanks) (a.valueStart + blanks + value.length) =
            value := by
  obtain ⟨c, hread, -⟩ := exists_spacedProperty
  exact ⟨rfl, c, hread, values_stand rfl hread⟩

/-- Where the value of the property is said to start, its `=` stands. -/
theorem value_stands_elsewhere :
    ∃ c, Command.read {} true .command [] (some spacedProperty) = .ok c ∧ ∃ l, c.line = some l ∧
      ∃ a ∈ c.arguments, ∃ value, a.value = some value ∧ ¬ a.IsFlag l.substituted ∧
        l.substituted.between a.valueStart (a.valueStart + value.length) ≠ value := by
  obtain ⟨c, hread, hline, harguments⟩ := exists_spacedProperty
  refine ⟨c, hread, _, hline, _, harguments ▸ List.mem_singleton_self _, _, rfl, ?_, by decide⟩
  rintro ⟨-, before, raw, -, ⟨-, hset⟩ | ⟨rest, -, -, hunset⟩⟩
  · exact absurd hset (by decide)
  · exact absurd hunset (by decide)

end Command

end CommandLine
