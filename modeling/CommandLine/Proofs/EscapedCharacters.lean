/-
# `CommandLine.Proofs.EscapedCharacters` — what an escaped character ends

The character after a backslash is taken as it is, whatever it means elsewhere.  It ends the state
that takes it, and inside of a value, its quotes and its groups nothing else.  The name of a
property is the one exception.  A property that goes on after an inner state looks at the character
under the cursor, because the character that ends its value ends the property as well; so it is
ended by an escaped one, too.

    below the escape     the character     what ends
    a property           `,`               the property
    a property           `)`               the property and its list
    anything else        any               nothing

The active states after the character follow from the actions of the table (`secure_escaped`).  That
the frames are those that were there before, with the innermost ones taken off, is what entering
nothing means (`Stripped`).
-/
import CommandLine.Proofs.Closers
import CommandLine.Proofs.Offsets

namespace CommandLine

open StateName

variable {η : Type} {handler : Handler η}

/-! ## Frames that are left alone -/

/-- Some of the innermost frames have been taken off, and nothing else has happened to the stack. -/
structure Stripped (frames : List (Frame StateName)) (character : Option Char)
    (active : List StateName) (s : Session StateName (Reader × η)) : Prop where
  active_eq : s.context.active = active
  character_eq : s.context.character? = character
  suffix : s.context.stack.frames <:+ frames

namespace Stripped

open Machine

variable {frames : List (Frame StateName)} {character : Option Char} {active : List StateName}
  {s : Session StateName (Reader × η)} {P : Prop}

/-- The frames that are left are the outermost ones, as many as states are active. -/
theorem frames_eq (h : Stripped frames character active s) {rest : List (Frame StateName)}
    (hrest : rest <:+ frames) (hactive : active = rest.map Frame.state) :
    s.context.stack.frames = rest := by
  have hlength : s.context.stack.frames.length = rest.length := by
    have hstates : s.context.stack.frames.map Frame.state = rest.map Frame.state :=
      h.active_eq.trans hactive
    simpa using congrArg List.length hstates
  exact (List.suffix_of_suffix_length_le h.suffix hrest hlength.le).eq_of_length hlength

/-- A signal changes no frames; if it is not accepted, `P` holds. -/
theorem tell (h : Stripped frames character active s) {signal : Signal StateName}
    (haccepts : (∀ c g, ((Reader.listener handler).hear signal c g).verdict = .accept) ∨ P) :
    Ends (fun _ _ => P) (fun _ => Stripped frames character active)
      (tell (Reader.listener handler) signal) s := by
  have hheard : Stripped frames character active (heard (Reader.listener handler) signal s) :=
    ⟨h.active_eq, h.character_eq, h.suffix⟩
  refine .tell (fun _ => hheard) (fun {e} hv => ?_) fun hv => ?_
  · rcases haccepts with haccepts | hP
    · cases (haccepts _ _).symm.trans hv
    · exact .complain (fun _ => hP) fun _ => ⟨h.active_eq, h.character_eq, h.suffix⟩
  · rcases haccepts with haccepts | hP
    · cases (haccepts _ _).symm.trans hv
    · exact hP

theorem closing {x : StateName} {outer : List StateName}
    (h : Stripped frames character (x :: outer) s) :
    Ends (fun _ _ => P) (fun _ => Stripped frames character outer) closing s := by
  have hactive := h.active_eq
  refine .closing (hactive ▸ List.cons_ne_nil x outer) fun {frame stack} hpop => ?_
  rw [Context.active_of_pop hpop] at hactive
  have hsuffix := h.suffix
  rw [Stack.eq_of_pop hpop] at hsuffix
  refine ⟨?_, ?_, ?_⟩
  · rw [Context.active_unlockValue]
    exact (List.cons.inj hactive).2
  · rw [Context.unlockValue_eq]
    exact h.character_eq
  · rw [Context.stack_unlockValue]
    exact (List.suffix_cons frame stack.frames).trans hsuffix

end Stripped

/-- The outlook of a character that is content and ends the states of which `leaves` holds. -/
def Outlook.ofLeaving (leaves : StateName → Prop) : Outlook StateName where
  guard
    | .content, _ => True
    | .leaving x, _ => leaves x
    | _, _ => False
  reads _ := False
  unfinished _ := False

namespace Machine

variable {frames : List (Frame StateName)} {character : Option Char} {P : Prop}
  {leaves : StateName → Prop}

/-- Where states are only left no frame changes; if a signal is not accepted, `P` holds. -/
theorem governs_stripped
    (haccepts : ∀ x, leaves x →
      (∀ c g, ((Reader.listener handler).hear (.leaving x) c g).verdict = .accept) ∨ P) :
    Governs grammar (Reader.listener handler) (.ofLeaving leaves) character
      (Stripped frames character) (fun _ _ => P) where
  active_eq hs := hs.active_eq
  character_eq hs := hs.character_eq
  literal _ _ := trivial
  enters hguard _ := hguard.elim
  leaves hguard hs := (hs.tell (haccepts _ hguard)).bind fun _ _ ht => ht.closing
  tells {signal _ _} hstill hguard hs := by
    cases signal with
    | content => exact hs.tell (.inl fun _ _ => rfl)
    | entered x | leaving x => cases hstill
    | itemEnd | nameEnd => exact hguard.elim
  complains _ hunfinished _ := hunfinished.elim
  places hreads _ := hreads.elim

end Machine

/-! ## The character after a backslash -/

/-- How many states an escaped character ends besides the escape, given the state around it. -/
def endedByEscaped (d : Char) : StateName → Nat
  | property => if d = ',' then 1 else if d = ')' then 2 else 0
  | _ => 0

section

variable {b y : StateName} {outer : List StateName} {d : Char} {leaves : StateName → Prop}
  {n : Nat}

/-- A property that goes on after an escape. -/
theorem secure_property_escaped (hnested : Nested b (property :: outer))
    (hproperty : d = ',' ∨ d = ')' → leaves property) (hlist : d = ')' → leaves propertyList) :
    Secure.within grammar (some d) (.ofLeaving leaves) (n + 7)
      (grammar property).onReturn (· = (property :: outer).drop (endedByEscaped d property))
      (property :: outer) := by
  obtain ⟨rest, rfl, hlisted⟩ := hnested.holder_eq (y := propertyList) rfl (by decide)
  obtain ⟨rest, rfl, -⟩ := hlisted.holder_eq (y := address) rfl (by decide)
  show if [',', ')'].contains d = true then _ else _
  by_cases hcomma : d = ','
  · subst hcomma
    exact ⟨hproperty (.inl rfl), rfl⟩
  · by_cases hclose : d = ')'
    · subst hclose
      exact ⟨hproperty (.inr rfl), hlist rfl, rfl⟩
    · rw [if_neg (by simp [hcomma, hclose])]
      show _ = List.drop (if d = ',' then 1 else if d = ')' then 2 else 0) _
      rw [if_neg hcomma, if_neg hclose]
      rfl

/-- The escape is left, and a property around it as the character says. -/
theorem secure_escaped (hnested : Nested b (escape :: y :: outer)) (hescape : leaves escape)
    (hproperty : y = property → d = ',' ∨ d = ')' → leaves property)
    (hlist : y = property → d = ')' → leaves propertyList) :
    Secure.within grammar (some d) (.ofLeaving leaves) (n + 9)
      ((grammar escape).actionFor [d]) (· = (y :: outer).drop (endedByEscaped d y))
      (escape :: y :: outer) := by
  cases hnested with
  | inside held hrest =>
    rw [actionFor_escape]
    refine ⟨trivial, hescape, ?_⟩
    rcases onReturn_of_holds_part held rfl with rfl | hskip
    · exact secure_property_escaped hrest (hproperty rfl) (hlist rfl)
    · show Secure.within grammar (some d) _ (n + 7 + 1) (grammar y).onReturn _ _
      rw [hskip]
      cases y <;> first | rfl | cases hskip

end

section

variable {b : StateName} {outer : List StateName}

/-- No value is being read where a property goes on. -/
theorem Nested.propertyValue_not_mem (h : Nested b (escape :: property :: outer)) :
    propertyValue ∉ escape :: property :: outer := by
  intro hmem
  simp only [List.mem_cons, reduceCtorEq, false_or] at hmem
  exact absurd (h.around.isFrame_of_isOuter rfl _ hmem) (by decide)

end

/-! ## Runs -/

namespace Machine

variable {s : Session StateName (Reader × η)} {escaped below : Frame StateName}
  {outer : List (Frame StateName)} {d : Char}

/-- The character after a backslash is handled, and its escape is taken off with what it ends. -/
theorem ends_handle_escaped {b : StateName} (P : Prop) (leaves : StateName → Prop)
    (hnested : Nested b s.context.active)
    (hframes : s.context.stack.frames = escaped :: below :: outer)
    (hstate : escaped.state = escape) (hd : s.context.character? = some d)
    (haccepts : ∀ x, leaves x →
      (∀ c g, ((Reader.listener handler).hear (.leaving x) c g).verdict = .accept) ∨ P)
    (hescape : leaves escape)
    (hproperty : below.state = property → d = ',' ∨ d = ')' → leaves property)
    (hlist : below.state = property → d = ')' → leaves propertyList) :
    Ends (fun _ _ => P)
      (fun _ t => t.context.stack.frames = (below :: outer).drop (endedByEscaped d below.state))
      (handle grammar (Reader.listener handler)) s := by
  have hactive : s.context.active = escape :: below.state :: outer.map Frame.state := by
    rw [Context.active, hframes, List.map_cons, List.map_cons, hstate]
  have hstripped : Stripped s.context.stack.frames (some d)
      (escape :: below.state :: outer.map Frame.state) s := ⟨hactive, hd, List.suffix_rfl⟩
  have hsecure : Secure.dispatchBy grammar (some d)
      (Secure.within grammar (some d) (.ofLeaving leaves) actionLimit)
      (· = (below.state :: outer.map Frame.state).drop (endedByEscaped d below.state))
      (escape :: below.state :: outer.map Frame.state) :=
    secure_escaped (n := 991) (hactive ▸ hnested) hescape hproperty hlist
  refine Ends.bind ((governs_stripped haccepts).dispatch hsecure hstripped) fun _ t ht => ?_
  obtain ⟨active, rfl, ht⟩ := ht
  have hadvance := advance_apply t
  rw [Context.atEnd_eq_isNone, ht.character_eq] at hadvance
  refine .of_ok hadvance (ht.frames_eq ?_ ?_)
  · rw [hframes]
    exact (List.drop_suffix _ _).trans (List.suffix_cons escaped _)
  · rw [List.map_drop, List.map_cons]

end Machine

open Machine

section

variable {settings : Settings} {strict : Bool} {entrance : Entrance} {text : Text}
  {gathered : Reader × η} {s : Session StateName (Reader × η)} {escaped below : Frame StateName}
  {outer : List (Frame StateName)}

/-- What the character after a backslash ends, wherever in a run it is taken: the escape and, if the
name of a property is being read around it, on `,` that property and on `)` the property and its
list.  Every other frame stays as it is; and if the property stays, the character is always
accepted.  While the value of a property is being read, its name is not. -/
theorem escaped_character_ends (fair : handler.IsFair)
    (hs : s ∈ handledFrom grammar (Reader.listener handler) entrance.state
      (positionLimit settings text) (.start settings strict text gathered))
    (hframes : s.context.stack.frames = escaped :: below :: outer)
    (hstate : escaped.state = escape) :
    ∃ d, s.context.character? = some d ∧
      (∀ t, handle grammar (Reader.listener handler) s = .ok () t →
        t.context.stack.frames = (below :: outer).drop (endedByEscaped d below.state)) ∧
      (endedByEscaped d below.state = 0 →
        ∃ t, handle grammar (Reader.listener handler) s = .ok () t) ∧
      (below.state = property → outer.head?.map Frame.state = some propertyList) ∧
      (propertyValue ∈ s.context.active → below.state ≠ property) := by
  have steady : (Reader.listener handler).SteadyIn entrance.state fun _ _ => True := fun _ =>
    Reader.steady_listener fair entrance.not_readsItems
  obtain ⟨htracks, hinside⟩ := tracks_of_handledFrom (steady.attends entrance.isRoot_state trivial)
    entrance.isRoot_state rfl rfl rfl hs
  have hnested := htracks.nested
  obtain ⟨d, hd⟩ : ∃ d, s.context.character? = some d := by
    rwa [Context.atEnd_eq_isNone, Option.isNone_eq_false_iff, Option.isSome_iff_exists] at hinside
  have hactive : s.context.active = escape :: below.state :: outer.map Frame.state := by
    rw [Context.active, hframes, List.map_cons, List.map_cons, hstate]
  refine ⟨d, hd, fun t ht => ?_, fun hnone => ?_, fun hbelow => ?_, fun hvalue hbelow => ?_⟩
  · exact (ends_handle_escaped True (fun _ => True) hnested hframes hstate hd
      (fun _ _ => .inr trivial) trivial (fun _ _ => trivial) fun _ _ => trivial).ok ht
  · cases hhandle : handle grammar (Reader.listener handler) s with
    | ok a t => exact ⟨t, rfl⟩
    | error fault t =>
      -- only the escape is left, and of that the listener makes nothing
      refine ((ends_handle_escaped False (· = escape) hnested hframes hstate hd ?_ rfl ?_ ?_).error
        hhandle).elim
      · rintro x rfl
        exact .inl fun _ _ => rfl
      · intro hbelow hdelimiter
        rw [hbelow] at hnone
        rcases hdelimiter with rfl | rfl <;> cases hnone
      · rintro hbelow rfl
        rw [hbelow] at hnone
        cases hnone
  · rw [hactive, hbelow] at hnested
    obtain ⟨rest, hrest, -⟩ := hnested.around.holder_eq (y := propertyList) rfl (by decide)
    rw [← List.head?_map, hrest]
    rfl
  · rw [hactive, hbelow] at hnested hvalue
    exact hnested.propertyValue_not_mem hvalue

/-- An operation with an escaped comma in the name of its property. -/
def escapedComma : Text := [':', 'o', 'p', '(', 'a', '\\', ',', 'b', '=', 'c', ')']

/-- The sessions in which its characters are handled. -/
def escapedCommaSessions : List (Session StateName (Reader × List Event)) :=
  handledFrom grammar (Reader.listener Handler.collecting) Entrance.command.state
    (positionLimit {} escapedComma) (.start {} true escapedComma ({}, []))

theorem exists_escapedComma : ∃ s ∈ escapedCommaSessions,
    s.context.active = [escape, property, propertyList, address, command] ∧
      (match handle grammar (Reader.listener Handler.collecting) s with
        | .ok _ t => t.context.active == [propertyList, address, command]
        | .error _ _ => false) = true := by
  decide +kernel

theorem escaped_character_ends_of_comma : Handler.collecting.IsFair ∧
    ∃ s ∈ escapedCommaSessions, ∃ escaped below outer,
      s.context.stack.frames = escaped :: below :: outer ∧ escaped.state = escape ∧
        ∃ d, s.context.character? = some d ∧
          (∀ t, handle grammar (Reader.listener Handler.collecting) s = .ok () t →
            t.context.stack.frames = (below :: outer).drop (endedByEscaped d below.state)) ∧
          (endedByEscaped d below.state = 0 →
            ∃ t, handle grammar (Reader.listener Handler.collecting) s = .ok () t) ∧
          (below.state = property → outer.head?.map Frame.state = some propertyList) ∧
          (propertyValue ∈ s.context.active → below.state ≠ property) := by
  obtain ⟨s, hs, hactive, -⟩ := exists_escapedComma
  obtain ⟨escaped, rest, hframes, hstate, hrest⟩ := List.map_eq_cons_iff.1 hactive
  obtain ⟨below, outer, rfl, -, -⟩ := List.map_eq_cons_iff.1 hrest
  exact ⟨Handler.isFair_collecting, s, hs, escaped, below, outer, hframes, hstate,
    escaped_character_ends Handler.isFair_collecting hs hframes hstate⟩

/-- After `\,` the property is no longer there. -/
theorem escaped_comma_ends_property : ∃ s ∈ escapedCommaSessions, ∃ escaped below outer t,
    s.context.stack.frames = escaped :: below :: outer ∧ escaped.state = escape ∧
      below.state = property ∧
      handle grammar (Reader.listener Handler.collecting) s = .ok () t ∧
      below ∉ t.context.stack.frames := by
  obtain ⟨s, hs, hactive, hafter⟩ := exists_escapedComma
  obtain ⟨escaped, rest, hframes, hstate, hrest⟩ := List.map_eq_cons_iff.1 hactive
  obtain ⟨below, outer, rfl, hbelow, -⟩ := List.map_eq_cons_iff.1 hrest
  cases hhandle : handle grammar (Reader.listener Handler.collecting) s with
  | error fault t =>
    rw [hhandle] at hafter
    cases hafter
  | ok a t =>
    rw [hhandle] at hafter
    refine ⟨s, hs, escaped, below, outer, t, hframes, hstate, hbelow, hhandle, fun hmem => ?_⟩
    have hproperty : property ∈ t.context.active := hbelow ▸ List.mem_map_of_mem hmem
    rw [eq_of_beq hafter] at hproperty
    exact absurd hproperty (by decide)

end

end CommandLine
