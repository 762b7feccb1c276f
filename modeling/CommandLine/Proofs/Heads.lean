/-
# `CommandLine.Proofs.Heads` — an operation and the address before it

The name of an operation comes right after the `:` that ends its address, and the name of a command
comes without any address (`Event.Announced`).  Together with the order of the events this says what
the address of an operation is, as long as no list is closed: the events up to the `:` make it up,
no later one adds to it, and every node of it has a name (`Event.orderly_ofLine`).

    [format]  address ...  :  name ...        an operation
    [format]                  name ...        a command

A name of an operation is read in a state that is entered on the `:`, so nothing of an address can
come in between.  That a command name is only read at the start of the line needs one fact about
the grammar: on no character is a command left alone again once something has been entered in it
(`Secure.within_inside`).

What holds of the events holds of the command, too, because a command that refuses nothing is told
all of them (`readLine_told`).
-/
import CommandLine.Proofs.Addresses
import CommandLine.Proofs.Offsets

namespace CommandLine

open StateName

/-! ## Handlers that have refused nothing -/

section

variable {η : Type} {handler : Handler η} {gathered result : η}

/-- What the handler gathers from some events, one after the other, unless it refuses one. -/
def Handler.take (handler : Handler η) : List Event → η → Option η
  | [], gathered => some gathered
  | event :: rest, gathered =>
    match handler event gathered with
    | (gathered, .ok _) => handler.take rest gathered
    | (_, .error _) => none

theorem Handler.take_append (first second : List Event) :
    handler.take (first ++ second) gathered =
      (handler.take first gathered).bind (handler.take second) := by
  induction first generalizing gathered with
  | nil => rfl
  | cons event rest ih =>
    simp only [List.cons_append, take]
    split
    · exact ih
    · rfl

/-- What holds at the start and is kept by each accepted event holds in the end. -/
theorem Handler.take_keeps {P : η → Prop} {E : Event → Prop}
    (keeps : ∀ event gathered, E event → P gathered → P (handler event gathered).1)
    {events : List Event} (hevents : ∀ event ∈ events, E event) (hgathered : P gathered)
    (h : handler.take events gathered = some result) : P result := by
  induction events generalizing gathered with
  | nil =>
    cases h
    exact hgathered
  | cons event rest ih =>
    have hfirst : P (handler event gathered).1 :=
      keeps event gathered (hevents event List.mem_cons_self) hgathered
    rw [take] at h
    split at h
    · next heq =>
      rw [heq] at hfirst
      exact ih (fun e he => hevents e (List.mem_cons_of_mem _ he)) hfirst h
    · cases h

namespace Reader

theorem take_of_deliver {reports : List (Event × Reader)}
    (h : deliver handler reports gathered = (result, none)) :
    handler.take (reports.map Prod.fst) gathered = some result := by
  induction reports generalizing gathered with
  | nil =>
    cases h
    rfl
  | cons report rest ih =>
    obtain ⟨event, kept⟩ := report
    rw [deliver] at h
    rw [List.map_cons, Handler.take]
    split at h
    · cases h
    · next heq =>
      rw [heq]
      exact ih h

/-- A reader goes on as the collecting one does until its handler refuses an event. -/
theorem follows_collector (handler : Handler η) (initial : η) :
    (listener handler).Follows
      (fun h g => h.1 = g.1 ∧ handler.take g.2 initial = some h.2) Machine.collector where
  hear := by
    rintro signal c ⟨reader, now⟩ ⟨_, events⟩ ⟨rfl, htake⟩
    rw [Machine.hear_collector]
    unfold listener
    dsimp only
    cases hdeliver : deliver handler (reader.hear signal c).1.reports now with
    | mk later refusal =>
      cases refusal with
      | some refusal => exact .inl ⟨refusal.1, rfl⟩
      | none =>
        have hlater : handler.take (events ++ added signal c reader) initial = some later := by
          rw [Handler.take_append, htake]
          exact take_of_deliver hdeliver
        cases hfault : (reader.hear signal c).2 with
        | some e => exact .inl ⟨_, rfl⟩
        | none => exact .inr ⟨rfl, rfl, hlater⟩
  place _ := rfl

end Reader

/-- A handler that has refused no event of a line has been told all of them. -/
theorem readLine_told {settings : Settings} {strict : Bool} {entrance : Entrance}
    {line : Option Text} {initial : η} {r : Result}
    (h : readLine settings strict handler entrance line initial = (result, .ok r)) :
    handler.take (Event.ofLine settings strict entrance line).1 initial = some result := by
  unfold readLine readWith at h
  cases hread : grammar.read settings strict (Reader.listener handler) entrance.state line
    ({}, initial) with
  | mk heard outcome =>
    rw [hread] at h
    cases outcome with
    | error fault => cases h
    | ok found =>
      obtain ⟨⟨reader, events⟩, hcollected, -, htake⟩ :=
        Graph.read_follows grammar (Reader.follows_collector handler initial)
          (g := ({}, [])) ⟨rfl, rfl⟩ hread
      rw [Event.ofLine_eq, hcollected]
      dsimp only at h htake ⊢
      rw [Handler.take_append, htake]
      dsimp only [Option.bind_some, Handler.take]
      split at h <;> cases h
      next heq => rw [heq]

end

/-! ## Where an address ends -/

namespace Event

variable {events reports head : List Event} {e : Event} {i : Int}

/-- The events come up to the `:` that ends an address; without an address there are none. -/
def EndsAddress (events : List Event) : Prop :=
  events = [] ∨ ∃ front i, events = front ++ [operationSeparator i]

/-- No part of an address has come since the end of the address. -/
def AddressEnded (events : List Event) : Prop :=
  ∃ head rest, events = head ++ rest ∧ EndsAddress head ∧ ∀ event ∈ rest, event.part ≠ .address

theorem AddressEnded.of_plain (h : ∀ event ∈ events, event.part ≠ .address) :
    AddressEnded events := ⟨[], events, rfl, .inl rfl, h⟩

theorem AddressEnded.of_separator : AddressEnded (events ++ [operationSeparator i]) :=
  ⟨_, [], (List.append_nil _).symm, .inr ⟨events, i, rfl⟩, fun _ h => absurd h List.not_mem_nil⟩

theorem AddressEnded.append (h : AddressEnded events)
    (hreports : ∀ event ∈ reports, event.part ≠ .address) : AddressEnded (events ++ reports) := by
  obtain ⟨head, rest, rfl, hends, hrest⟩ := h
  refine ⟨head, rest ++ reports, List.append_assoc _ _ _, hends, fun event hevent => ?_⟩
  rcases List.mem_append.1 hevent with hevent | hevent
  · exact hrest event hevent
  · exact hreports event hevent

/-- When the name of an operation or of a command comes, the address has ended. -/
def Announced (events : List Event) : Prop :=
  ∀ (before : List Event) (i : Int) (name : Text),
    before ++ [operationName i name] <+: events → AddressEnded before

theorem Announced.nil : Announced [] := by
  intro before i name h
  simp at h

/-- A name can be added once the address has ended, and any other event at any time. -/
theorem Announced.concat (h : Announced events) (hended : e.part = .name → AddressEnded events) :
    Announced (events ++ [e]) := by
  intro before i name hprefix
  rcases List.prefix_concat_iff.1 hprefix with hlast | hbefore
  · obtain ⟨rfl, hevent⟩ := List.append_inj' hlast rfl
    cases hevent
    exact hended rfl
  · exact h before i name hbefore

theorem Announced.append (h : Announced events)
    (hreports : ∀ event ∈ reports, event.part ≠ .name) : Announced (events ++ reports) := by
  induction reports generalizing events with
  | nil => rwa [List.append_nil]
  | cons event rest ih =>
    rw [← List.singleton_append, ← List.append_assoc]
    refine ih (h.concat fun hname => ?_) fun other hother => ?_
    · exact absurd hname (hreports event List.mem_cons_self)
    · exact hreports other (List.mem_cons_of_mem _ hother)

/-- Where nothing of an address comes after a name, none has come since the address ended. -/
theorem Announced.addressEnded (h : Announced events) (hfirst : HeadFirst events)
    (hname : ∃ event ∈ events, event.part = .name) : AddressEnded events := by
  obtain ⟨event, hevent, hpart⟩ := hname
  obtain ⟨before, after, rfl⟩ := List.append_of_mem hevent
  obtain ⟨i, name, rfl⟩ : ∃ i name, event = operationName i name := by
    cases event <;> first | exact ⟨_, _, rfl⟩ | cases hpart
  have hbefore : AddressEnded before := h before i name ⟨after, by simp⟩
  refine hbefore.append fun later hlater => ?_
  rcases List.mem_cons.1 hlater with rfl | hlater
  · nofun
  · obtain ⟨middle, more, rfl⟩ := List.append_of_mem hlater
    have hhead : later.isHead = false := by
      refine hfirst before middle i name later ⟨more, ?_⟩
      simp
    intro haddress
    rw [isHead, haddress] at hhead
    cases hhead

end Event

/-! ## Names at the start and after the `:` -/

namespace StateName

/-- In the state an address has ended, and a name is read in it or comes next. -/
def endsAddress : StateName → Bool
  | commandName | operationSeparator | operationName => true
  | _ => false

/-- The only one of these states in which another one is entered is that of the `:`. -/
theorem eq_operationName_of_endsAddress {x y : StateName} (hx : x ∈ y.holds)
    (hy : y.endsAddress = true) : x = operationName := by
  have table : ∀ y ∈ all, y.endsAddress = true → ∀ x ∈ y.holds, x = operationName := by decide
  exact table y (mem_all y) hy x hx

end StateName

/-! ### A command is not left alone -/

/-- Something is active inside the state at the bottom. -/
def Inside (bottom : StateName) (active : List StateName) : Prop :=
  ∃ x outer, active = x :: (outer ++ [bottom])

theorem Inside.push {b : StateName} {active : List StateName} (x : StateName)
    (h : Inside b active) : Inside b (x :: active) := by
  obtain ⟨y, outer, rfl⟩ := h
  exact ⟨x, y :: outer, rfl⟩

theorem Inside.two_le {b : StateName} {active : List StateName} (h : Inside b active) :
    2 ≤ active.length := by
  obtain ⟨x, outer, rfl⟩ := h
  simp

theorem Nested.exists_append {b : StateName} {active : List StateName} (h : Nested b active) :
    ∃ front, active = front ++ [b] := by
  induction h with
  | bottom => exact ⟨[], rfl⟩
  | @inside x _ _ _ _ ih =>
    obtain ⟨front, hfront⟩ := ih
    exact ⟨x :: front, congrArg (x :: ·) hfront⟩

/-- All states but the one at the bottom are inside it. -/
theorem Nested.eq_or_inside {b : StateName} {active : List StateName} (h : Nested b active) :
    active = [b] ∨ Inside b active := by
  obtain ⟨front, rfl⟩ := h.exists_append
  cases front with
  | nil => exact .inl rfl
  | cons x front => exact .inr ⟨x, front, rfl⟩

namespace Secure

variable {o : Outlook StateName} {d : Char} {n : Nat} {Q R : List StateName → Prop}
  {active : List StateName}

/-- What a command goes on with once everything in it has been left is its arguments. -/
theorem return_command_inside (h : within grammar (some d) o n (grammar command).onReturn Q [command])
    (hQR : ∀ inner, Inside command inner → Q inner → R inner) :
    within grammar (some d) o n (grammar command).onReturn R [command] := by
  match n, h with
  | 1, h => exact h.2.elim
  | n + 2, h => exact ⟨h.1, hQR _ ⟨argumentList, [], rfl⟩ h.2⟩

/-- On a character, from states inside a command an action leads to states inside the command. -/
theorem within_inside {a : Action StateName} (h : within grammar (some d) o n a Q active)
    (hinside : Inside command active) (hQR : ∀ inner, Inside command inner → Q inner → R inner) :
    within grammar (some d) o n a R active := by
  induction n generalizing a Q R active with
  | zero => exact h
  | succ n ih =>
    have entering (x : StateName)
        (h : enterBy grammar o.guard (within grammar (some d) o n) x Q active) :
        enterBy grammar o.guard (within grammar (some d) o n) x R active :=
      ⟨h.1, ih h.2 (hinside.push x) hQR⟩
    have leaving (h : leaveBy grammar o.guard (within grammar (some d) o n) Q active) :
        leaveBy grammar o.guard (within grammar (some d) o n) R active := by
      obtain ⟨x, outer, rfl⟩ := hinside
      refine ih h ⟨x, outer, rfl⟩ fun inner hinner hclose => ?_
      obtain ⟨y, below, rfl⟩ := hinner
      refine ⟨hclose.1, ?_⟩
      -- either the command is all that is left, or there is still something in it
      cases below with
      | nil => exact return_command_inside hclose.2 hQR
      | cons z below => exact ih hclose.2 ⟨z, below, rfl⟩ hQR
    have staying (h : Q active) : R active := hQR active hinside h
    cases a with
    | skip => exact staying h
    | content => exact ⟨h.1, staying h.2⟩
    | leave => exact leaving h
    | contentAndLeave => exact ⟨h.1, leaving h.2⟩
    | dispatch =>
      obtain ⟨x, outer, rfl⟩ := hinside
      exact ih h ⟨x, outer, rfl⟩ hQR
    | undefined => exact h
    | enter x => exact entering x h
    | escape x => exact ⟨entering x h.1, fun hliteral => ⟨(h.2 hliteral).1, staying (h.2 hliteral).2⟩⟩
    | chain actions =>
      have hchain : actions.foldr (within grammar (some d) o n) Q active := h
      show actions.foldr (within grammar (some d) o n) R active
      clear entering leaving staying h
      induction actions generalizing active with
      | nil => exact hQR active hinside hchain
      | cons a rest ihrest => exact ih hchain hinside fun inner hinner h => ihrest hinner h
    | notFinished delimiter => exact ⟨h.1, h.2.1, staying h.2.2⟩
    | configure escapes expressions => exact h
    | besideSeparator following preceding otherwise => exact ⟨staying h.1, ih h.2 hinside hQR⟩
    | leaveOnGap =>
      show if Text.isGap d = true then _ else _
      have hgap : if Text.isGap d = true then _ else _ := h
      split at hgap
      · next hd => exact (if_pos hd).symm ▸ leaving hgap
      · next hd => exact (if_neg hd).symm ▸ staying hgap
    | leaveOn characters =>
      show if characters.contains d = true then _ else _
      have hon : if characters.contains d = true then _ else _ := h
      split at hon
      · next hd => exact (if_pos hd).symm ▸ leaving hon
      · next hd => exact (if_neg hd).symm ▸ staying hon
    | enterUnlessEnd x => exact entering x h
    | startValue x => exact ⟨h.1, entering x h.2.1, h.2.2.1, staying h.2.2.2⟩
    | startBraces x y =>
      exact ⟨h.1, entering x h.2.1, entering y h.2.2.1, h.2.2.2.1, staying h.2.2.2.2⟩
    | endItem => exact ⟨h.1, h.2.1, staying h.2.2⟩
    | endName => exact ⟨h.1, h.2.1, h.2.2.1, staying h.2.2.2⟩

end Secure

theorem Nested.eq_nil_of_command {b : StateName} {outer : List StateName}
    (h : Nested b (command :: outer)) : outer = [] := by
  cases h with
  | bottom => rfl
  | @inside _ y _ held => exact absurd held (by cases y <;> decide)

namespace Event

open Reader Reading

/-- What has been reported goes with the active states: names come when their addresses have ended,
and while nothing is active but the command there has been no address, unless the command is `left`
for its arguments. -/
structure Heads (left : Prop) (active : List StateName) (events : List Event) : Prop where
  announced : Announced events
  ended : ∀ x ∈ active.head?, x.endsAddress = true → AddressEnded events
  fresh : active.length ≤ 1 → (∀ event ∈ events, event.part ≠ .address) ∨ left

/-- The states of a command line are nested; the name of a command is not read where the command is
left for its arguments, and only there something that stands in the command is left. -/
def guardsHeads (left : Prop) : Signal StateName → List StateName → Prop
  | .entered x, active => Nested command active ∧ (x = commandName → ¬ left)
  | .leaving _, active => Nested command active ∧ (active.length ≤ 2 → left)
  | _, active => Nested command active

section

variable {left : Prop} {active outer : List StateName} {x : StateName} {events : List Event}
  {signal : Signal StateName} {c : Context StateName} {r : Reader} {character : Option Char}
  {d : Char} {reads : List StateName → Prop}

theorem Heads.mono {later : Prop} (h : Heads left active events) (hleft : left → later) :
    Heads later active events where
  announced := h.announced
  ended := h.ended
  fresh hshort := (h.fresh hshort).imp_right hleft

/-- On a character what stands in a command is left on a gap only. -/
theorem guides_guardsHeads (hleft : Text.isGap d = true → left) :
    Guides command true false (some d) (guardsHeads left) where
  leaving {x outer} _ hroot hcloses h := by
    refine ⟨h, fun hshort => ?_⟩
    obtain ⟨y, rest, rfl, held, hy⟩ := h.holder hroot
    obtain rfl : rest = [] := by
      cases rest with
      | nil => rfl
      | cons z rest => simp at hshort
    cases hy with
    | bottom => exact hleft (hcloses.gapOrEnd held hroot d rfl)
  arguments _ _ h := ⟨h, nofun⟩
  entered {d x y outer} hbase _ _ h := by
    refine ⟨h, ?_⟩
    rintro rfl
    obtain ⟨_, heq, -⟩ := h.holder_eq (y := command) rfl (by decide)
    cases heq
    exact absurd (hbase (by decide)) nofun
  content h := h
  itemEnd h := h
  nameEnd h := h

/-- The states are told apart by what is reported when they are entered. -/
theorem Heads.enters (h : Heads left outer events)
    (hguard : guardsHeads left (.entered x) (x :: outer)) :
    Heads left (x :: outer) (events ++ added (.entered x) c r) := by
  obtain ⟨hnested, hname⟩ := hguard
  have hpart {event : Event} (hevent : event ∈ added (.entered x) c r) :
      event.part = partOf (.entered x) := part_of_mem_added hevent
  refine ⟨?_, fun y hy hends => ?_, fun hshort => ?_⟩
  · exact h.announced.append fun event hevent hn => partOf_entered_ne_name (hpart hevent ▸ hn)
  · obtain rfl := Option.some.inj hy
    cases x with
    | commandName =>
      obtain ⟨rest, rfl, hcommand⟩ := hnested.holder_eq (y := command) rfl (by decide)
      obtain rfl := hcommand.eq_nil_of_command
      have hplain := (h.fresh (Nat.le_refl 1)).resolve_right (hname rfl)
      exact (AddressEnded.of_plain hplain).append fun event hevent => by
        rw [hpart hevent]
        nofun
    | operationSeparator => exact .of_separator
    | operationName =>
      obtain ⟨rest, rfl, -⟩ := hnested.holder_eq (y := .operationSeparator) rfl (by decide)
      exact (h.ended .operationSeparator rfl rfl).append fun event hevent => by
        rw [hpart hevent]
        nofun
    | _ => cases hends
  · cases hnested with
    | inside => simp at hshort
    | bottom =>
      refine (h.fresh (Nat.zero_le 1)).imp_left fun hplain event hevent => ?_
      rcases List.mem_append.1 hevent with hevent | hevent
      · exact hplain event hevent
      · rw [hpart hevent]
        nofun

/-- A name is reported when its state is left. -/
theorem Heads.leaves (h : Heads left (x :: outer) events)
    (hguard : guardsHeads left (.leaving x) (x :: outer)) :
    Heads left outer (events ++ added (.leaving x) c r) := by
  obtain ⟨hnested, hleft⟩ := hguard
  have hpart {event : Event} (hevent : event ∈ added (.leaving x) c r) :
      event.part = partOf (.leaving x) := part_of_mem_added hevent
  refine ⟨?_, fun y hy hends => ?_, fun hshort => .inr (hleft (Nat.succ_le_succ hshort))⟩
  · cases hname : x.isName with
    | true =>
      have hended : AddressEnded events := by
        refine h.ended x rfl ?_
        cases x <;> first | rfl | cases hname
      rcases added_leaving_name (c := c) (r := r) hname with hadded | ⟨i, name, hadded⟩
      · rw [hadded, List.append_nil]
        exact h.announced
      · rw [hadded]
        exact h.announced.concat fun _ => hended
    | false =>
      refine h.announced.append fun event hevent hn => ?_
      rw [hpart hevent, partOf_leaving_eq_name, hname] at hn
      cases hn
  · cases hnested with
    | bottom => cases hy
    | inside held =>
      obtain rfl := Option.some.inj hy
      obtain rfl := eq_operationName_of_endsAddress held hends
      exact (h.ended .operationName rfl rfl).append fun event hevent => by
        rw [hpart hevent]
        nofun

/-- Other signals report nothing that matters here. -/
theorem Heads.told (h : Heads left active events) (hrest : partOf signal = .rest) :
    Heads left active (events ++ added signal c r) := by
  have hpart {event : Event} (hevent : event ∈ added signal c r) : event.part = .rest :=
    (part_of_mem_added hevent).trans hrest
  refine ⟨h.announced.append fun event hevent hn => ?_, fun x hx hends => ?_, fun hshort => ?_⟩
  · cases (hpart hevent).symm.trans hn
  · exact (h.ended x hx hends).append fun event hevent ha => by
      cases (hpart hevent).symm.trans ha
  · refine (h.fresh hshort).imp_left fun hplain event hevent => ?_
    rcases List.mem_append.1 hevent with hevent | hevent
    · exact hplain event hevent
    · intro ha
      cases (hpart hevent).symm.trans ha

theorem steady_heads (left : Prop) (hreads : ∀ active, ¬ reads active) :
    (listener Handler.collecting).Steady (guardsHeads left) reads character
      (fun active g => Heads left active g.2) fun g => Announced g.2 where
  entered _ _ hguard hg := keeps_collecting (hg.enters hguard).announced (hg.enters hguard)
  leaving _ _ hguard hg := keeps_collecting (hg.leaves hguard).announced (hg.leaves hguard)
  content _ hg := keeps_collecting (hg.told rfl).announced (hg.told rfl)
  itemEnd _ hg := keeps_collecting (hg.told rfl).announced (hg.told rfl)
  nameEnd _ hg := keeps_collecting (hg.told rfl).announced (hg.told rfl)
  place hread _ := absurd hread (hreads _)
  sound hg := hg.announced

/-! ## Characters of a command -/

theorem actionFor_command (d : Char) :
    (grammar .command).actionFor [d] =
      if d = '/' ∨ d = ':' ∨ d = '.' then .enter .address
      else if Text.isGap d then .skip else .enter .commandName := by
  rw [State.actionFor_singleton]
  simp only [grammar, Grammar.command, State.gapAction, lookup_upon, List.lookup_nil]
  split
  · simp_all
  · split
    · simp_all
    · split <;> simp_all

theorem secure_enter_address (n : Nat) (hgap : Text.isGap d = true → False) :
    Secure grammar (guardsHeads False) (ReadsItems command) (some d) (n + 17) (.enter .address)
      (Nested command) [command] := by
  have haddress : Nested command [address, command] := .inside (by decide) (.bottom rfl)
  have haction := secure_actionFor (guides_guardsHeads hgap) n haddress (fun _ => rfl)
    (fun hbase => absurd hbase (by decide)) fun _ hinner => hinner
  rw [show n + 3 * address.height + 9 = n + 15 from rfl] at haction
  have hdispatch : Secure grammar (guardsHeads False) (ReadsItems command) (some d) (n + 16)
      .dispatch (Nested command) [address, command] := by
    rw [secure_dispatch_succ]
    exact haction
  exact ⟨⟨haddress, nofun⟩, hdispatch⟩

theorem secure_enter_commandName (n : Nat) :
    Secure grammar (guardsHeads False) (ReadsItems command) (some d) (n + 2) (.enter .commandName)
      (Nested command) [command] := by
  have hname : Nested command [commandName, command] := .inside (by decide) (.bottom rfl)
  exact ⟨⟨hname, fun _ => id⟩, hname, hname⟩

/-- On a character a command starts with an address or with a name, or a gap is skipped. -/
theorem secure_command :
    Secure.dispatchBy grammar (some d)
      (Secure grammar (guardsHeads False) (ReadsItems command) (some d) Machine.actionLimit)
      (Nested command) [command] := by
  show Secure grammar (guardsHeads False) (ReadsItems command) (some d) (983 + 17)
    ((grammar command).actionFor [d]) (Nested command) [command]
  rw [actionFor_command]
  split
  · next hd =>
    refine secure_enter_address 983 ?_
    rcases hd with rfl | rfl | rfl <;> decide
  · split
    · exact .bottom rfl
    · exact secure_enter_commandName 998

/-- On a character something inside a command goes on, or the arguments of the command follow. -/
theorem secure_inside (h : Nested command active) (hinside : Inside command active) :
    Secure.dispatchBy grammar (some d)
      (Secure grammar (guardsHeads (Text.isGap d = true)) (ReadsItems command) (some d)
        Machine.actionLimit)
      (fun inner => Nested command inner ∧ Inside command inner) active := by
  have hsecure := secure_dispatch (guides_guardsHeads (d := d) id) h (fun _ _ _ => rfl)
    (fun x hx hbase => ?_) fun _ hinner => hinner
  · obtain ⟨x, outer, rfl⟩ := hinside
    exact Secure.within_inside hsecure ⟨x, outer, rfl⟩ fun inner hinner hnested => ⟨hnested, hinner⟩
  · cases h with
    | bottom => simpa using hinside.two_le
    | inside held =>
      obtain rfl := Option.some.inj hx
      exact absurd hbase (by simp [isBase_eq_false held])

/-! ## Whole lines -/

/-- Until all states are left the events go with them. -/
theorem attends_heads :
    (listener Handler.collecting).Attends command ({}, [])
      (fun active g => Announced g.2 ∧ (active ≠ [] → Heads False active g.2))
      fun g => Announced g.2 where
  enter {f location s} hs := by
    have hstart : s.Stands (fun active g => Heads False active g.2) f location [] :=
      hs.imp fun hg => by
        subst hg
        exact ⟨.nil, nofun, fun _ => .inl nofun⟩
    refine (Machine.Settles.enter (steady_heads False (Entrance.not_readsItems .command))
      (secure_enter_root rfl ⟨.bottom rfl, nofun⟩ rfl) hstart).imp fun hactive hheads => ?_
    exact ⟨hactive.symm, hheads.announced, fun _ => hheads⟩
  dispatch {f location d active s} hd h hs := by
    have hheads : s.Stands (fun active g => Heads False active g.2) f location active :=
      hs.imp fun hg => hg.2 h.ne_nil
    rcases h.eq_or_inside with rfl | hinside
    · refine (Machine.Settles.dispatch (steady_heads False (Entrance.not_readsItems .command))
        (hd ▸ secure_command) hheads).imp fun hactive hlater => ?_
      exact ⟨hactive, hlater.announced, fun _ => hlater⟩
    · refine (Machine.Settles.dispatch (steady_heads _ (Entrance.not_readsItems .command))
        (hd ▸ secure_inside h hinside) (hheads.imp fun hg => hg.mono False.elim)).imp
        fun hactive hlater => ?_
      refine ⟨hactive.1, hlater.announced, fun _ => ⟨hlater.announced, hlater.ended, ?_⟩⟩
      exact fun hshort => absurd hactive.2.two_le (Nat.not_le_of_lt (Nat.lt_succ_of_le hshort))
  finish {f location active s} hend h hs := by
    have hheads : s.Stands (fun active g => Heads True active g.2) f location active :=
      hs.imp fun hg => (hg.2 h.ne_nil).mono False.elim
    refine (Machine.Settles.finish (steady_heads True (Entrance.not_readsItems .command)) hend
      (fun h => ⟨h, fun _ => trivial⟩) h hheads).imp fun hactive hlater => ?_
    exact ⟨hactive, hlater.announced, fun hne => absurd hactive hne⟩
  sound hg := hg.1

end

/-- Whatever the line, its names come when their addresses have ended. -/
theorem announced_of_line (settings : Settings) (strict : Bool) (line : Option Text) :
    Announced (ofLine settings strict .command line).1 :=
  ofLine_of_attends attends_heads .nil (fun h => h.concat nofun) settings strict line

/-- What may be a type or a name has text, whatever the line. -/
theorem isFilled_of_line (settings : Settings) (strict : Bool) (entrance : Entrance)
    (line : Option Text) : ∀ event ∈ (ofLine settings strict entrance line).1, event.IsFilled := by
  refine readLine_keeps (P := fun events : List Event => ∀ event ∈ events, event.IsFilled)
    (fun _ _ _ _ => Reader.isFilled_of_mem_added) (fun _ _ => nofun) ?_ settings strict entrance line
    (fun _ h => absurd h List.not_mem_nil)
  intro event events hevent hevents other hother
  rcases List.mem_append.1 hother with hother | hother
  · exact hevents other hother
  · obtain rfl := List.mem_singleton.1 hother
    exact hevent

end Event

/-! ## The command that is gathered -/

namespace Command

open Event

variable {c c₀ : Command} {event : Event} {head rest : List Event} {base : List Node}

/-- Only parts of an address change the address. -/
theorem address_receive (h : event.part ≠ .address) :
    (c.receive event).1.address = c.address := by
  cases event with
  | argument name value start stop => exact address_receiveArgument c name value start stop
  | _ => first | rfl | exact absurd rfl h

/-- Only the name of an operation changes the operation. -/
theorem operation_receive (h : event.part ≠ .name) :
    (c.receive event).1.operation = c.operation := by
  cases event with
  | parentNode index =>
    simp only [receive, receiveParent]
    split <;> rfl
  | nodeType index type =>
    simp only [receive, receiveType]
    split
    · rfl
    · split <;> rfl
  | nodeName index name =>
    simp only [receive, receiveName]
    split
    · rfl
    · split <;> rfl
  | nodeTypeOrName index text =>
    simp only [receive, receiveTypeOrName]
    split <;> rfl
  | operationSeparator index =>
    simp only [receive, receiveOperationSeparator]
    split <;> rfl
  | argument name value start stop =>
    simp only [receive, receiveArgument]
    split <;> rfl
  | operationName index name => exact absurd rfl h
  | _ => rfl

/-- After other events the address is what it was. -/
theorem address_take (hrest : ∀ event ∈ rest, event.part ≠ .address)
    (h : handler.take rest c₀ = some c) : c.address = c₀.address := by
  refine Handler.take_keeps (P := fun later => later.address = c₀.address)
    (fun event later hevent hlater => ?_) hrest rfl h
  rw [handler_fst, address_receive hevent, hlater]

/-- The name of an operation has been told. -/
theorem exists_name_of_take {events : List Event} (h : handler.take events (relativeTo base) = some c)
    (hoperation : c.operation ≠ none) : ∃ event ∈ events, event.part = .name := by
  by_contra hnone
  have hplain : ∀ event ∈ events, event.part ≠ .name :=
    fun event hevent hname => hnone ⟨event, hevent, hname⟩
  refine hoperation (Handler.take_keeps (P := fun later => later.operation = none)
    (fun event later hevent hlater => ?_) hplain rfl h)
  rw [handler_fst, operation_receive hevent, hlater]

/-- Where an address ends, every node of it has its name. -/
theorem complete_of_endsAddress (hbase : ∀ n ∈ base, n.IsComplete)
    (hfilled : ∀ event ∈ head, event.IsFilled) (hends : EndsAddress head)
    (h : handler.take head (relativeTo base) = some c) : ∀ n ∈ c.address, n.IsComplete := by
  rcases hends with rfl | ⟨front, i, rfl⟩
  · cases h
    exact hbase
  · rw [Handler.take_append] at h
    obtain ⟨before, hbefore, hlast⟩ := Option.bind_eq_some_iff.1 h
    have hformed : WellFormed before.address := by
      refine Handler.take_keeps (P := fun later => WellFormed later.address)
        (fun event later hevent hlater => ?_)
        (fun event hevent => hfilled event (List.mem_append_left _ hevent)) (.of_complete hbase)
        hbefore
      rw [handler_fst]
      exact wellFormed_receive hlater hevent
    simp only [Handler.take] at hlast
    split at hlast
    · next later _ haccepted =>
      cases hlast
      have hseparated : (before.receive (.operationSeparator i)).2 = .ok () :=
        receive_of_handler_ok (congrArg Prod.snd haccepted)
      have hsame : (before.receive (.operationSeparator i)).1 = c := by
        rw [← handler_fst, haccepted]
      rw [← hsame]
      exact complete_of_receiveOperationSeparator hformed hseparated
    · cases hlast

end Command

namespace Event

/-- The events of every command line are orderly, with any settings, strictly and leniently: once
the name of an operation has been reported, no part of an address and no second name follows
before a list has been closed.  So if no list is closed and the command has an operation, its
address is what has been gathered by the `:` that ends it, or the base address where there is no
`:`, nothing later belongs to it, and every node of it has a name if those of the base address
have one. -/
theorem orderly_ofLine (settings : Settings) (strict : Bool) (line : Option Text) :
    Orderly (ofLine settings strict .command line).1 ∧
      ∀ {base : List Node} {c : Command},
        Command.read settings strict .command base line = .ok c → c.operation ≠ none →
        (∀ event ∈ (ofLine settings strict .command line).1, event.closesList = false) →
        ∃ head rest c₀, (ofLine settings strict .command line).1 = head ++ rest ∧
          EndsAddress head ∧ (∀ event ∈ rest, event.part ≠ .address) ∧
          Command.handler.take head (.relativeTo base) = some c₀ ∧ c.address = c₀.address ∧
          ((∀ n ∈ base, n.IsComplete) → ∀ n ∈ c.address, n.IsComplete) := by
  have horderly := orderly_of_line settings strict line
  refine ⟨horderly, fun {base c} hread hoperation hlists => ?_⟩
  have htake : Command.handler.take (ofLine settings strict .command line).1 (.relativeTo base) =
      some c := by
    unfold Command.read at hread
    split at hread
    · cases hread
    · next hline =>
      cases hread
      exact readLine_told hline
  have hname := Command.exists_name_of_take htake hoperation
  obtain ⟨head, rest, hsplit, hends, hrest⟩ := (announced_of_line settings strict line).addressEnded
    (horderly.headFirst hlists) hname
  have hfilled := isFilled_of_line settings strict .command line
  rw [hsplit] at htake hfilled
  rw [Handler.take_append] at htake
  obtain ⟨c₀, hhead, hlater⟩ := Option.bind_eq_some_iff.1 htake
  have haddress := Command.address_take hrest hlater
  refine ⟨head, rest, c₀, hsplit, hends, hrest, hhead, haddress, fun hbase => ?_⟩
  rw [haddress]
  exact Command.complete_of_endsAddress hbase
    (fun event hevent => hfilled event (List.mem_append_left _ hevent)) hends hhead

/-- A line with an address, an operation and an argument: `/a=b:op c`. -/
def operatedLine : Text := ['/', 'a', '=', 'b', ':', 'o', 'p', ' ', 'c']

/-- In `/a=b:op c` the address ends with the `:`. -/
theorem orderly_ofLine_of_operatedLine :
    ∃ c, Command.read {} true .command [] (some operatedLine) = .ok c ∧ c.operation ≠ none ∧
      (∀ event ∈ (ofLine {} true .command (some operatedLine)).1, event.closesList = false) ∧
      ∃ head rest c₀, (ofLine {} true .command (some operatedLine)).1 = head ++ rest ∧
        EndsAddress head ∧ (∀ event ∈ rest, event.part ≠ .address) ∧
        Command.handler.take head (.relativeTo []) = some c₀ ∧ c.address = c₀.address ∧
        ((∀ n ∈ ([] : List Node), n.IsComplete) → ∀ n ∈ c.address, n.IsComplete) := by
  have hname : (Command.read {} true .command [] (some operatedLine)).map Command.operation =
      .ok (some ['o', 'p']) := by decide +kernel
  have hlists : ∀ event ∈ (ofLine {} true .command (some operatedLine)).1,
      event.closesList = false := by decide +kernel
  cases hread : Command.read {} true .command [] (some operatedLine) with
  | error fault =>
    rw [hread] at hname
    cases hname
  | ok c =>
    have hoperation : c.operation ≠ none := by
      rw [hread] at hname
      simp [Except.ok.inj hname]
    exact ⟨c, rfl, hoperation, hlists,
      (orderly_ofLine {} true (some operatedLine)).2 hread hoperation hlists⟩

/-- A line whose address goes on after its operation: `/a=b:op() /c=d`. -/
def resumedLine : Text := ['/', 'a', '=', 'b', ':', 'o', 'p', '(', ')', ' ', '/', 'c', '=', 'd']

/-- The end of a list cannot be left out: in `/a=b:op() /c=d` the `/` after the `)` is reported as
a separator of nodes, although the operation has been named. -/
theorem not_headFirst_of_resumedLine :
    ¬ HeadFirst (ofLine {} true .command (some resumedLine)).1 := by
  intro h
  have hlater := h
    [.format {}, .rootNode 0, .nodeType 1 ['a'], .nodeTypeNameSeparator 2, .nodeName 3 ['b'],
      .operationSeparator 4]
    [.propertyListStart 7, .propertyListEnd 8] 5 ['o', 'p'] (.nodeSeparator 10) (by decide +kernel)
  cases hlater

end Event
end CommandLine
