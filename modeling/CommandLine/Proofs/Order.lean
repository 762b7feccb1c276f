/-
# `CommandLine.Proofs.Order` — the address comes before the operation

A command line has an address, then the name of an operation, then lists and arguments.  In the
events of a line this order holds up to the end of a list: once a name has been reported, a part of
an address or a second name follows only after a list has been closed (`Event.Orderly`).  Without
lists the address comes first (`Event.Orderly.headFirst`).  The end of a list is an exception
because the list stands in the address: closing it leads back to where an address goes on.  So
`/a=b:op() /c=d` has two addresses, one before and one after its operation.

The proof is about the active states.  A name is *sealed* from its report until a list is closed.

    before a character      while a name is sealed, the innermost state follows it    (`Rests`)
    while a name is left    no innermost state reads a name or a node                 (`Passes`)

A character in any other state leaves no name, so it can only take the seal off (`steady_rests`).
A character that ends a name enters nothing but a list or the arguments, and the end of the line
enters nothing at all (`steady_passes`).
-/
import CommandLine.Proofs.OperationText

namespace CommandLine

/-! ## Orderly events -/

namespace Event

/-- The event reports a part of the address or the name of an operation. -/
def isHead (event : Event) : Bool := event.part != .rest

/-- The event reports the end of a list of properties or headers. -/
def closesList : Event → Bool
  | propertyListEnd _ | headerListEnd _ => true
  | _ => false

/-- From the name of an operation to a later part of an address, or to a second name, a list is
closed. -/
def Orderly (events : List Event) : Prop :=
  ∀ (before middle : List Event) (i : Int) (name : Text) (later : Event),
    before ++ operationName i name :: middle ++ [later] <+: events → later.isHead = true →
      ∃ closer ∈ middle, closer.closesList = true

/-- Nothing of an address and no second name comes after the name of an operation. -/
def HeadFirst (events : List Event) : Prop :=
  ∀ (before middle : List Event) (i : Int) (name : Text) (later : Event),
    before ++ operationName i name :: middle ++ [later] <+: events → later.isHead = false

/-- Whether a name is sealed after an event. -/
def seals (isSealed : Bool) (event : Event) : Bool :=
  event.part == .name || isSealed && !event.closesList

/-- A name has been reported and no list has been closed since. -/
def sealed (events : List Event) : Bool := events.foldl seals false

section

variable {events reports : List Event} {e : Event}

theorem sealed_append : sealed (events ++ reports) = reports.foldl seals (sealed events) :=
  List.foldl_append

/-- A seal stays as long as no list is closed. -/
theorem foldl_seals_true (h : ∀ event ∈ reports, event.closesList = false) :
    reports.foldl seals true = true := by
  induction reports with
  | nil => rfl
  | cons event rest ih =>
    have hevent : seals true event = true := by
      rw [seals, h event List.mem_cons_self, Bool.not_false, Bool.and_self, Bool.or_true]
    rw [List.foldl_cons, hevent]
    exact ih fun other hother => h other (List.mem_cons_of_mem _ hother)

/-- Without a new name there is no new seal. -/
theorem foldl_seals_le {isSealed : Bool} (h : ∀ event ∈ reports, event.part ≠ .name) :
    reports.foldl seals isSealed = true → isSealed = true := by
  induction reports generalizing isSealed with
  | nil => exact id
  | cons event rest ih =>
    intro hsealed
    have hseals := ih (fun other hother => h other (List.mem_cons_of_mem _ hother)) hsealed
    have hpart : (event.part == .name) = false := beq_false_of_ne (h event List.mem_cons_self)
    rw [seals, hpart, Bool.false_or] at hseals
    exact (Bool.and_eq_true_iff.1 hseals).1

theorem Orderly.nil : Orderly [] := by
  intro before middle i name later h
  exact absurd (List.prefix_nil.1 h) (by simp)

/-- A part of an address or a name can be added where no name is sealed. -/
theorem Orderly.concat (h : Orderly events) (hopen : e.isHead = true → sealed events = false) :
    Orderly (events ++ [e]) := by
  intro before middle i name later hprefix hlater
  rcases List.prefix_concat_iff.1 hprefix with hlast | hbefore
  · obtain ⟨rfl, hevent⟩ := List.append_inj' hlast rfl
    cases hevent
    cases hany : middle.any closesList with
    | true => exact List.any_eq_true.1 hany
    | false =>
      have hmiddle : ∀ event ∈ middle, event.closesList = false := by
        intro event hevent
        rw [← Bool.not_eq_true]
        exact List.any_eq_false.1 hany event hevent
      have hsealed : sealed (before ++ operationName i name :: middle) = true := by
        rw [sealed_append]
        exact foldl_seals_true hmiddle
      exact absurd (hsealed.symm.trans (hopen hlater)) nofun
  · exact h before middle i name later hbefore hlater

/-- Other events can be added anywhere. -/
theorem Orderly.append_rest (h : Orderly events) (hrest : ∀ event ∈ reports, event.part = .rest) :
    Orderly (events ++ reports) := by
  induction reports generalizing events with
  | nil => rwa [List.append_nil]
  | cons event rest ih =>
    have hevent : event.isHead = false := by
      rw [isHead, hrest event List.mem_cons_self]
      rfl
    rw [← List.singleton_append, ← List.append_assoc]
    refine ih (h.concat fun hhead => absurd (hevent.symm.trans hhead) nofun) ?_
    exact fun other hother => hrest other (List.mem_cons_of_mem _ hother)

/-- Parts of an address can be added where no name is sealed. -/
theorem Orderly.append_address (h : Orderly events) (hopen : sealed events = false)
    (haddress : ∀ event ∈ reports, event.part = .address) : Orderly (events ++ reports) := by
  induction reports generalizing events with
  | nil => rwa [List.append_nil]
  | cons event rest ih =>
    have hevent : event.part = .address := haddress event List.mem_cons_self
    have hstill : sealed (events ++ [event]) = false := by
      rw [sealed_append, hopen, List.foldl_cons, List.foldl_nil, seals, hevent]
      rfl
    rw [← List.singleton_append, ← List.append_assoc]
    refine ih (h.concat fun _ => hopen) hstill ?_
    exact fun other hother => haddress other (List.mem_cons_of_mem _ hother)

/-- Where no list is closed, the address and the name come first. -/
theorem Orderly.headFirst (h : Orderly events) (hlists : ∀ event ∈ events, event.closesList = false) :
    HeadFirst events := by
  intro before middle i name later hprefix
  rw [← Bool.not_eq_true]
  intro hlater
  obtain ⟨closer, hcloser, hcloses⟩ := h before middle i name later hprefix hlater
  have hmem : closer ∈ events := by
    refine hprefix.subset (List.mem_append_left _ (List.mem_append_right _ ?_))
    exact List.mem_cons_of_mem _ hcloser
  exact absurd ((hlists closer hmem).symm.trans hcloses) nofun

/-- Events of one part other than a name can be added; where a name is sealed, it is not a part of
an address.  There is no new seal. -/
theorem Orderly.append_part {part : Part} (h : Orderly events)
    (hpart : ∀ event ∈ reports, event.part = part) (hname : part ≠ .name)
    (hopen : sealed events = true → part = .rest) :
    Orderly (events ++ reports) ∧ (sealed (events ++ reports) = true → sealed events = true) := by
  refine ⟨?_, fun hsealed => ?_⟩
  · cases part with
    | rest => exact h.append_rest hpart
    | name => exact absurd rfl hname
    | address =>
      refine h.append_address ?_ hpart
      rw [← Bool.not_eq_true]
      exact fun hsealed => nomatch hopen hsealed
  · rw [sealed_append] at hsealed
    exact foldl_seals_le (fun event hevent hn => hname ((hpart event hevent).symm.trans hn)) hsealed

end
end Event

/-! ## What a signal adds -/

namespace Reader

open Reading StateName

/-- The events that a reader reports on a signal. -/
def added (signal : Signal StateName) (c : Context StateName) (r : Reader) : List Event :=
  (r.hear signal c).1.reports.map Prod.fst

section

variable {signal : Signal StateName} {c : Context StateName} {r : Reader} {events : List Event}
  {x : StateName}

/-- The collecting reader keeps what holds of the events with those of the signal. -/
theorem keeps_collecting {strict : Bool} {E P : List Event → Prop}
    (hE : E (events ++ added signal c r)) (hP : P (events ++ added signal c r)) :
    ((listener Handler.collecting).hear signal c (r, events)).Keeps strict (fun g => E g.2)
      fun g => P g.2 := by
  have hreports := Reports.signal c signal { reader := r }
  unfold added Reader.hear at hE hP
  unfold listener Reader.hear
  dsimp only
  cases hsignal : Reading.signal c signal { reader := r } with
  | ok a work =>
    rw [hsignal] at hP
    rw [deliver_collecting]
    exact hP
  | error e work =>
    rw [hsignal] at hE hreports
    obtain ⟨-, fault, rfl⟩ := hreports
    rw [deliver_collecting]
    exact ⟨.operation strict fault, hE⟩

/-- On a signal what belongs to it is reported, also if the signal finds fault. -/
theorem adds_hear : Adds (Tells c signal) { reader := r } (r.hear signal c).1 := by
  have hreports := Reports.signal c signal { reader := r }
  unfold Reader.hear
  cases hsignal : Reading.signal c signal { reader := r } with
  | ok a work =>
    rw [hsignal] at hreports
    exact hreports
  | error e work =>
    rw [hsignal] at hreports
    exact hreports.1

theorem tells_of_mem_added {event : Event} (h : event ∈ added signal c r) :
    Tells c signal event := by
  obtain ⟨report, hreport, rfl⟩ := List.mem_map.1 h
  obtain ⟨reports, hwork, htells⟩ := @adds_hear signal c r
  rw [List.nil_append] at hwork
  exact htells report (hwork ▸ hreport)

theorem part_of_mem_added {event : Event} (h : event ∈ added signal c r) :
    event.part = partOf signal := (tells_of_mem_added h).part_eq

/-- A name that is left is reported once, if at all. -/
theorem added_leaving_name (hx : x.isName = true) :
    added (.leaving x) c r = [] ∨
      ∃ i name, added (.leaving x) c r = [Event.operationName i name] := by
  have h : added (.leaving x) c r =
      if r.tokens.buffer.isEmpty then []
      else [Event.operationName r.tokens.start r.tokens.buffer] := by
    cases x with
    | commandName | operationName =>
      unfold added Reader.hear
      rw [show Reading.signal c (.leaving _) { reader := r } = operationNameDone { reader := r }
        from rfl, operationNameDone, bind_apply, take_apply]
      dsimp only
      cases hname : r.tokens.buffer.isEmpty <;> rfl
    | _ => cases hx
  rw [h]
  cases r.tokens.buffer.isEmpty with
  | true => exact .inl rfl
  | false => exact .inr ⟨_, _, rfl⟩

/-- A list that is left before the end of the line is reported to be closed. -/
theorem added_leaving_list (hx : x = propertyList ∨ x = headerList) (hc : c.atEnd = false) :
    ∃ event : Event, event.closesList = true ∧ added (.leaving x) c r = [event] := by
  have closing (event : Event) :
      (if !c.atEnd then report event else pure ()) { reader := r } =
        EStateM.Result.ok () { reader := r, reports := [(event, r)] } := by
    rw [hc]
    rfl
  rcases hx with rfl | rfl
  · refine ⟨.propertyListEnd c.location, rfl, ?_⟩
    unfold added Reader.hear
    rw [show Reading.signal c (.leaving propertyList) { reader := r } = _ from closing _]
    rfl
  · refine ⟨.headerListEnd c.location, rfl, ?_⟩
    unfold added Reader.hear
    rw [show Reading.signal c (.leaving headerList) { reader := r } = _ from closing _]
    rfl

end
end Reader

/-! ## The sides of an operation -/

namespace StateName

/-- The state follows the name of an operation or of a command. -/
def isTail : StateName → Bool
  | command | commandName | address | node | nodeQuotes | nodeEscape | nodeSeparator
  | operationSeparator | operationName => false
  | _ => true

/-- A name or a part of a node is read in the state. -/
def readsHead : StateName → Bool
  | commandName | node | nodeQuotes | nodeEscape | operationName => true
  | _ => false

theorem isTail_of_mem_holds {x y : StateName} (h : x ∈ y.holds) (hy : y.isTail = true) :
    x.isTail = true := by
  have table : ∀ y ∈ all, y.isTail = true → ∀ x ∈ y.holds, x.isTail = true := by decide
  exact table y (mem_all y) hy x h

theorem readsHead_of_mem_holds {x y : StateName} (h : x ∈ y.holds) (hy : y.readsHead = true) :
    x.readsHead = true ∧ x.isName = false := by
  have table : ∀ y ∈ all, y.readsHead = true →
      ∀ x ∈ y.holds, x.readsHead = true ∧ x.isName = false := by decide
  exact table y (mem_all y) hy x h

/-- What follows a name starts with a list or with the arguments. -/
theorem eq_list_of_isTail {x y : StateName} (h : x ∈ y.holds) (hx : x.isTail = true)
    (hy : y.isTail = false) : x = propertyList ∨ x = headerList ∨ x = argumentList := by
  have table : ∀ y ∈ all, y.isTail = false → ∀ x ∈ y.holds, x.isTail = true →
      x = propertyList ∨ x = headerList ∨ x = argumentList := by decide
  exact table y (mem_all y) hy x h hx

theorem readsHead_of_isName {x : StateName} (hx : x.isName = true) : x.readsHead = true := by
  cases x <;> first | rfl | exact absurd hx nofun

theorem readsHead_of_isTail {x : StateName} (hx : x.isTail = true) : x.readsHead = false := by
  cases x <;> first | rfl | exact absurd hx nofun

end StateName

namespace Reading

open StateName

theorem partOf_of_isTail {x : StateName} (hx : x.isTail = true) :
    partOf (.entered x) = .rest ∧ partOf (.leaving x) = .rest := by
  cases x <;> first | exact ⟨rfl, rfl⟩ | exact absurd hx nofun

theorem partOf_entered_ne_name {x : StateName} : partOf (.entered x) ≠ .name := by
  cases x <;> decide

theorem partOf_leaving_of_readsHead {x : StateName} (hx : x.readsHead = false) :
    partOf (.leaving x) = .rest := by
  cases x <;> first | rfl | exact absurd hx nofun

theorem partOf_leaving_eq_name {x : StateName} :
    partOf (.leaving x) = .name ↔ x.isName = true := by
  cases x <;> decide

end Reading

/-! ## What each signal keeps -/

namespace Event

open StateName Reader Reading

/-- Before a character: while a name is sealed, the innermost state follows it. -/
def Rests (active : List StateName) (events : List Event) : Prop :=
  Orderly events ∧ (sealed events = true → ∃ x ∈ active.head?, x.isTail = true)

/-- While a name is left: once it is sealed, the innermost state reads neither a name nor a node. -/
def Passes (active : List StateName) (events : List Event) : Prop :=
  Orderly events ∧ (sealed events = true → ∀ x ∈ active.head?, x.readsHead = false)

section

variable {b x : StateName} {active outer : List StateName} {c : Context StateName} {r : Reader}
  {events : List Event}

theorem Rests.passes (h : Rests active events) : Passes active events := by
  refine ⟨h.1, fun hsealed x hx => ?_⟩
  obtain ⟨y, hy, htail⟩ := h.2 hsealed
  obtain rfl := Option.some.inj (hx.symm.trans hy)
  exact readsHead_of_isTail htail

theorem Rests.enters (h : Rests outer events) (hx : Nested b (x :: outer)) :
    Rests (x :: outer) (events ++ added (.entered x) c r) := by
  have htail (hsealed : sealed events = true) : x.isTail = true := by
    obtain ⟨y, hy, hytail⟩ := h.2 hsealed
    cases hx with
    | bottom root => cases hy
    | inside held rest =>
      obtain rfl := Option.some.inj hy
      exact isTail_of_mem_holds held hytail
  obtain ⟨horderly, hseal⟩ := h.1.append_part (fun event => part_of_mem_added)
    partOf_entered_ne_name fun hsealed => (partOf_of_isTail (htail hsealed)).1
  exact ⟨horderly, fun hsealed => ⟨x, rfl, htail (hseal hsealed)⟩⟩

/-- A state that is no name is left on a character. -/
theorem Rests.leaves (h : Rests (x :: outer) events) (hx : Nested b (x :: outer))
    (hname : x.isName = false) (hroot : x.isRoot = false) (hc : c.atEnd = false) :
    Rests outer (events ++ added (.leaving x) c r) := by
  have htail (hsealed : sealed events = true) : x.isTail = true := by
    obtain ⟨y, hy, hytail⟩ := h.2 hsealed
    obtain rfl := Option.some.inj hy
    exact hytail
  obtain ⟨horderly, hseal⟩ := h.1.append_part (fun event => part_of_mem_added)
    (fun hpart => absurd (hname.symm.trans (partOf_leaving_eq_name.1 hpart)) nofun)
    fun hsealed => (partOf_of_isTail (htail hsealed)).2
  refine ⟨horderly, fun hsealed => ?_⟩
  obtain ⟨y, rest, rfl, held, -⟩ := hx.holder hroot
  cases hy : y.isTail with
  | true => exact ⟨y, rfl, hy⟩
  | false =>
    -- a list is closed, which takes the seal off
    have hlist : x = propertyList ∨ x = headerList := by
      rcases eq_list_of_isTail held (htail (hseal hsealed)) hy with h | h | rfl
      · exact .inl h
      · exact .inr h
      · cases hroot
    obtain ⟨event, hcloses, hadded⟩ := added_leaving_list (r := r) hlist hc
    have hmem : event ∈ added (.leaving x) c r := hadded ▸ List.mem_cons_self
    have hpart : (event.part == .name) = false := by
      rw [part_of_mem_added hmem]
      rcases hlist with rfl | rfl <;> rfl
    rw [hadded, sealed_append, List.foldl_cons, List.foldl_nil, seals, hpart, hcloses,
      Bool.not_true, Bool.and_false, Bool.or_false] at hsealed
    cases hsealed

theorem Passes.enters (h : Passes outer events) (hx : x.isTail = true) :
    Passes (x :: outer) (events ++ added (.entered x) c r) := by
  obtain ⟨horderly, -⟩ := h.1.append_part (fun event => part_of_mem_added)
    partOf_entered_ne_name fun _ => (partOf_of_isTail hx).1
  refine ⟨horderly, fun _ y hy => ?_⟩
  obtain rfl := Option.some.inj hy
  exact readsHead_of_isTail hx

/-- Any state is left, a name as well. -/
theorem Passes.leaves (h : Passes (x :: outer) events) (hx : Nested b (x :: outer)) :
    Passes outer (events ++ added (.leaving x) c r) := by
  have hopen (hreads : x.readsHead = true) : sealed events = false := by
    rw [← Bool.not_eq_true]
    exact fun hsealed => absurd ((h.2 hsealed x rfl).symm.trans hreads) nofun
  have hbelow {y : StateName} (hy : y ∈ outer.head?) : x ∈ y.holds := by
    cases hx with
    | bottom root => cases hy
    | inside held rest =>
      obtain rfl := Option.some.inj hy
      exact held
  cases hname : x.isName with
  | true =>
    have hreads : x.readsHead = true := readsHead_of_isName hname
    refine ⟨?_, fun _ y hy => ?_⟩
    · rcases added_leaving_name (c := c) (r := r) hname with hadded | ⟨i, name, hadded⟩
      · rw [hadded, List.append_nil]
        exact h.1
      · rw [hadded]
        exact h.1.concat fun _ => hopen hreads
    · rw [← Bool.not_eq_true]
      exact fun hyreads => absurd
        ((readsHead_of_mem_holds (hbelow hy) hyreads).2.symm.trans hname) nofun
  | false =>
    obtain ⟨horderly, hseal⟩ := h.1.append_part (fun event => part_of_mem_added)
      (fun hpart => absurd (hname.symm.trans (partOf_leaving_eq_name.1 hpart)) nofun)
      fun hsealed => partOf_leaving_of_readsHead (h.2 hsealed x rfl)
    refine ⟨horderly, fun hsealed y hy => ?_⟩
    rw [← Bool.not_eq_true]
    intro hyreads
    have hreads := (readsHead_of_mem_holds (hbelow hy) hyreads).1
    exact absurd ((hopen hreads).symm.trans (hseal hsealed)) nofun

/-- Signals without a part of their own add nothing that matters. -/
theorem Orderly.told {signal : Signal StateName} (h : Orderly events)
    (hpart : partOf signal = .rest) :
    Orderly (events ++ added signal c r) ∧
      (sealed (events ++ added signal c r) = true → sealed events = true) :=
  h.append_part (fun _ hevent => (part_of_mem_added hevent).trans hpart) nofun fun _ => rfl

theorem Rests.told {signal : Signal StateName} (h : Rests active events)
    (hpart : partOf signal = .rest) : Rests active (events ++ added signal c r) := by
  obtain ⟨horderly, hseal⟩ := h.1.told (c := c) (r := r) hpart
  exact ⟨horderly, fun hsealed => h.2 (hseal hsealed)⟩

theorem Passes.told {signal : Signal StateName} (h : Passes active events)
    (hpart : partOf signal = .rest) : Passes active (events ++ added signal c r) := by
  obtain ⟨horderly, hseal⟩ := h.1.told (c := c) (r := r) hpart
  exact ⟨horderly, fun hsealed => h.2 (hseal hsealed)⟩

end
end Event

/-! ## The two guards -/

/-- The states that are left on a character are neither names nor at the bottom. -/
def keepsNames (b : StateName) (character : Option Char) :
    Signal StateName → List StateName → Prop
  | .leaving x, active =>
    Nested b active ∧ x.isName = false ∧ x.isRoot = false ∧ character.isSome
  | _, active => Nested b active

/-- The states that are entered follow a name. -/
def passesNames (b : StateName) : Signal StateName → List StateName → Prop
  | .entered x, active => Nested b active ∧ x.isTail = true
  | _, active => Nested b active

section

open Event Reader

variable {b : StateName} {character : Option Char} {d : Char} {reads : List StateName → Prop}

theorem guides_keepsNames : Guides b false true (some d) (keepsNames b (some d)) where
  leaving hname hroot _ h := by
    refine ⟨h, ?_, hroot, rfl⟩
    rw [← Bool.not_eq_true]
    exact fun hx => nomatch hname hx
  arguments _ _ h := h
  entered _ _ _ h := h
  content h := h
  itemEnd h := h
  nameEnd h := h

/-- On a character that is no part of a name, and when a line is started. -/
theorem steady_rests (hreads : ∀ active, ¬ reads active) :
    (listener Handler.collecting).Steady (keepsNames b character) reads character
      (fun active g => Rests active g.2) fun g => Orderly g.2 where
  entered _ _ hguard hg := keeps_collecting (hg.enters hguard).1 (hg.enters hguard)
  leaving {c x outer g} hc _ hguard hg := by
    obtain ⟨hx, hname, hroot, hsome⟩ := hguard
    have hinside : c.atEnd = false := by
      rw [Context.atEnd_eq_isNone, hc]
      exact Option.isNone_eq_false_iff.2 hsome
    have h := hg.leaves (c := c) (r := g.1) hx hname hroot hinside
    exact keeps_collecting h.1 h
  content _ hg := keeps_collecting (hg.told rfl).1 (hg.told rfl)
  itemEnd _ hg := keeps_collecting (hg.told rfl).1 (hg.told rfl)
  nameEnd _ hg := keeps_collecting (hg.told rfl).1 (hg.told rfl)
  place hread _ := absurd hread (hreads _)
  sound hg := hg.1

/-- On a character that can end a name, and at the end of the line. -/
theorem steady_passes (hreads : ∀ active, ¬ reads active) :
    (listener Handler.collecting).Steady (passesNames b) reads character
      (fun active g => Passes active g.2) fun g => Orderly g.2 where
  entered _ _ hguard hg := keeps_collecting (hg.enters hguard.2).1 (hg.enters hguard.2)
  leaving _ _ hguard hg := keeps_collecting (hg.leaves hguard).1 (hg.leaves hguard)
  content _ hg := keeps_collecting (hg.told rfl).1 (hg.told rfl)
  itemEnd _ hg := keeps_collecting (hg.told rfl).1 (hg.told rfl)
  nameEnd _ hg := keeps_collecting (hg.told rfl).1 (hg.told rfl)
  place hread _ := absurd hread (hreads _)
  sound hg := hg.1

end

/-! ## A character in a name -/

section

open StateName

variable {d : Char} {active outer : List StateName} {reads Q : List StateName → Prop}

/-- The active states are those of a name that goes on, or what follows a name. -/
def Settled (active : List StateName) : Prop :=
  Nested command active ∧ ∃ x ∈ active.head?, x.isName = true ∨ x.isTail = true

theorem nested_addressStates : Nested command addressStates :=
  .inside (by decide) (.bottom rfl)

theorem nested_operationStates : Nested command operationStates :=
  .inside (by decide) nested_addressStates

theorem nested_operationNameStates : Nested command operationNameStates :=
  .inside (by decide) nested_operationStates

namespace Secure

/-- The arguments follow a command. -/
theorem pass_command (n : Nat) (hQ : ∀ inner, Settled inner → Q inner) :
    Secure grammar (passesNames command) reads (some d) (n + 2) (grammar command).onReturn Q
      [command] := by
  have h : Nested command [argumentList, command] := .inside (by decide) (.bottom rfl)
  exact ⟨⟨h, rfl⟩, hQ _ ⟨h, _, rfl, .inr rfl⟩⟩

/-- The name of a command goes on or a gap ends it. -/
theorem pass_commandName (n : Nat) (hQ : ∀ inner, Settled inner → Q inner) :
    Secure grammar (passesNames command) reads (some d) (n + 3)
      ((grammar commandName).actionFor [d]) Q [commandName, command] := by
  have h : Nested command [commandName, command] := .inside (by decide) (.bottom rfl)
  rw [State.actionFor_singleton]
  show Secure grammar (passesNames command) reads (some d) (n + 3)
    (if Text.isGap d then .leave else .content) Q [commandName, command]
  split
  · exact secure_leave h (pass_command n hQ)
  · exact ⟨h, hQ _ ⟨h, _, rfl, .inl rfl⟩⟩

/-- The name of an operation is left for what comes next in the address. -/
theorem leave_operationName (n : Nat)
    (hreturn : Secure grammar (passesNames command) reads (some d) (n + 1)
      (grammar address).onReturn Q addressStates) :
    Secure grammar (passesNames command) reads (some d) (n + 3) .leave Q operationNameStates :=
  secure_leave nested_operationNameStates (secure_leave nested_operationStates hreturn)

/-- A list follows the name of an operation. -/
theorem pass_list (n : Nat) {x : StateName} (hgap : Text.isGap d = false)
    (held : x ∈ address.holds) (htail : x.isTail = true)
    (hfirst : Q (x :: addressStates) → Secure grammar (passesNames command) reads (some d) (n + 2)
      (grammar x).onEnter Q (x :: addressStates))
    (hQ : ∀ inner, Settled inner → Q inner) :
    Secure grammar (passesNames command) reads (some d) (n + 4) (.chain [.leave, .enter x]) Q
      operationNameStates := by
  have hlist : Nested command (x :: addressStates) := .inside held nested_addressStates
  rw [secure_chain_pair]
  refine leave_operationName n ?_
  show if Text.isGap d = true then _ else _
  rw [if_neg (Bool.eq_false_iff.1 hgap)]
  exact ⟨⟨hlist, htail⟩, hfirst (hQ _ ⟨hlist, x, rfl, .inr htail⟩)⟩

/-- The name of an operation goes on, or a gap or a list ends it. -/
theorem pass_operationName (n : Nat) (hQ : ∀ inner, Settled inner → Q inner) :
    Secure grammar (passesNames command) reads (some d) (n + 6)
      ((grammar operationName).actionFor [d]) Q operationNameStates := by
  have hstay : Q operationNameStates :=
    hQ _ ⟨nested_operationNameStates, _, rfl, .inl rfl⟩
  rw [actionFor_operationName]
  split
  · next hd =>
    subst hd
    exact pass_list (n + 2) (by decide) (by decide) rfl id hQ
  · split
    · next hd =>
      subst hd
      exact pass_list (n + 2) (by decide) (by decide) rfl id hQ
    · split
      · next hgap =>
        refine ⟨hstay, leave_operationName (n + 2) ?_⟩
        show if Text.isGap d = true then _ else _
        rw [if_pos hgap]
        exact secure_leave nested_addressStates (pass_command n hQ)
      · exact ⟨nested_operationNameStates, hstay⟩

/-- The states below a name are known, so a character in it is read as above. -/
theorem dispatch_name {x : StateName} (h : Nested command (x :: outer)) (hname : x.isName = true)
    (hQ : ∀ inner, Settled inner → Q inner) :
    dispatchBy grammar (some d)
      (Secure grammar (passesNames command) reads (some d) Machine.actionLimit) Q (x :: outer) := by
  have bottom {rest : List StateName} (h : Nested command (command :: rest)) : rest = [] := by
    cases h with
    | bottom => rfl
    | @inside _ y _ held => exact absurd held (by cases y <;> decide)
  cases x with
  | commandName =>
    obtain ⟨rest, rfl, hcommand⟩ := h.holder_eq (y := command) rfl (by decide)
    obtain rfl := bottom hcommand
    exact pass_commandName 997 hQ
  | operationName =>
    obtain ⟨_, rfl, hseparator⟩ := h.holder_eq (y := operationSeparator) rfl (by decide)
    obtain ⟨_, rfl, haddress⟩ := hseparator.holder_eq (y := address) rfl (by decide)
    obtain ⟨_, rfl, hcommand⟩ := haddress.holder_eq (y := command) rfl (by decide)
    obtain rfl := bottom hcommand
    exact pass_operationName 994 hQ
  | _ => cases hname

end Secure

/-! ## Whole lines -/

namespace Event

open Machine Reader

theorem Passes.rests {events : List Event} (h : Passes active events) (hactive : Settled active) :
    Rests active events := by
  refine ⟨h.1, fun hsealed => ?_⟩
  obtain ⟨-, x, hx, hname | htail⟩ := hactive
  · exact absurd ((h.2 hsealed x hx).symm.trans (readsHead_of_isName hname)) nofun
  · exact ⟨x, hx, htail⟩

/-- Until all states are left the seal is as it is before a character; what is reported is orderly
from the start to the end. -/
theorem attends_collecting :
    (listener Handler.collecting).Attends command ({}, [])
      (fun active g => Orderly g.2 ∧ (active ≠ [] → Rests active g.2)) fun g => Orderly g.2 where
  enter {f location s} hs := by
    have hstart : s.Stands (fun active g => Rests active g.2) f location [] :=
      hs.imp fun hg => ⟨hg ▸ .nil, fun hsealed => nomatch hg ▸ hsealed⟩
    refine (Settles.enter (steady_rests (Entrance.not_readsItems .command))
      (secure_enter_root rfl (.bottom rfl) rfl) hstart).imp fun hactive hrests => ?_
    exact ⟨hactive.symm, hrests.1, fun _ => hrests⟩
  dispatch {f location d active s} hd h hs := by
    cases active with
    | nil => exact absurd rfl h.ne_nil
    | cons x outer =>
      have hrests : s.Stands (fun active g => Rests active g.2) f location (x :: outer) :=
        hs.imp fun hg => hg.2 nofun
      cases hname : x.isName with
      | true =>
        refine (Settles.dispatch (steady_passes (Entrance.not_readsItems .command))
          (hd ▸ Secure.dispatch_name h hname fun _ hinner => hinner)
          (hrests.imp Rests.passes)).imp fun hactive hpasses => ?_
        exact ⟨hactive.1, hpasses.1, fun _ => hpasses.rests hactive⟩
      | false =>
        have hinnermost : ∀ y ∈ (x :: outer).head?, y.isName = true → false = true := by
          intro y hy hyname
          obtain rfl := Option.some.inj hy
          exact hname.symm.trans hyname
        refine (Settles.dispatch (steady_rests (Entrance.not_readsItems .command))
          (hd ▸ secure_dispatch guides_keepsNames h hinnermost (fun _ _ _ => rfl)
            fun _ hinner => hinner)
          hrests).imp fun hactive hrests => ?_
        exact ⟨hactive, hrests.1, fun _ => hrests⟩
  finish {f location active s} hend h hs := by
    have hrests : s.Stands (fun active g => Passes active g.2) f location active :=
      hs.imp fun hg => (hg.2 h.ne_nil).passes
    refine (Settles.finish (steady_passes (Entrance.not_readsItems .command)) hend
      (fun h => h) h hrests).imp fun hactive hpasses => ?_
    exact ⟨hactive, hpasses.1, fun hne => absurd hactive hne⟩
  sound hg := hg.1

/-- What the collecting reader keeps over a run from the start on holds of the events of a command
line, however the run ends. -/
theorem ofLine_of_attends {P : List Event → Prop} {J : List StateName → Reader × List Event → Prop}
    (attends : (listener Handler.collecting).Attends command ({}, [])
      (fun active g => P g.2 ∧ J active g) fun g => P g.2)
    (hnil : P []) (hparsed : ∀ {events result}, P events → P (events ++ [.parsed result]))
    (settings : Settings) (strict : Bool) (line : Option Text) :
    P (ofLine settings strict .command line).1 := by
  have hread : P (grammar.read settings strict (listener Handler.collecting)
      Entrance.command.state line ({}, [])).1.2 := by
    unfold Graph.read
    dsimp only
    split
    · exact hnil
    · have h := ends_readFrom (s := Session.start settings strict (line.getD []) ({}, []))
        attends (positionLimit settings (line.getD [])) rfl rfl rfl rfl rfl
      unfold Ends at h
      unfold Graph.readText
      split
      · next hread =>
        rw [show readFrom grammar _ command _ _ = _ from hread] at h
        exact h.2.1
      · next hread =>
        rw [show readFrom grammar _ command _ _ = _ from hread] at h
        exact h.2
  rw [ofLine_eq]
  revert hread
  rcases grammar.read settings strict (listener Handler.collecting) Entrance.command.state line
    ({}, []) with ⟨⟨reader, events⟩, fault | result⟩
  · exact id
  · exact hparsed

/-- Once the name of an operation has been reported, no part of an address and no second name
follows before a list has been closed. -/
theorem orderly_of_line (settings : Settings) (strict : Bool) (line : Option Text) :
    Orderly (ofLine settings strict .command line).1 :=
  ofLine_of_attends attends_collecting .nil (fun h => h.concat nofun) settings strict line

end Event
end
end CommandLine
