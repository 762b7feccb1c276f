/-
# `CommandLine.Proofs.Addresses` — addresses stay well formed

Whatever is typed, the address of a command is well formed after each event of the line: every node
has a type and no name is empty, and only the last node may still lack its name (`WellFormed`).
This holds from any base address of complete nodes on, and also after an event that the command
refuses.  Once the end of the address has been accepted, every node has its name.

To speak of the command after each event, `Handler.logging` keeps beside what a handler gathers how
it has taken each event so far.

    reader     a node that is a type or a name is reported with its text  (`isFilled_of_mem_added`)
    command    each event keeps the address well formed                   (`wellFormed_receive`)
    run        a handler keeps over a line what it keeps over each event  (`readLine_keeps`)

The reader and the command tell a name from a type each in its own way, the reader by the `=` before
it and the command by the node that waits for its name.  On this the command does not rely on the
reader: it names a node only if one waits, and it adds one only if none does.
-/
import CommandLine.Proofs.Order
import CommandLine.Proofs.Watching
import Mathlib.Data.List.Infix

namespace CommandLine

/-! ## Handlers that keep a log -/

section

variable {η : Type}

/-- How a handler has taken an event. -/
structure Handler.Step (η : Type) where
  /-- The event. -/
  event : Event
  /-- What has been gathered by then; a refused event may have left its traces in it. -/
  gathered : η
  /-- Whether the event was accepted. -/
  outcome : Except Fault Unit

/-- The handler that logs how another one takes each event. -/
def Handler.logging (handler : Handler η) : Handler (List (Handler.Step η) × η) :=
  fun event log =>
    let (gathered, outcome) := handler event log.2
    ((log.1 ++ [{ event, gathered, outcome }], gathered), outcome)

namespace Reader

theorem deliver_logging (handler : Handler η) (reports : List (Event × Reader))
    (log : List (Handler.Step η) × η) :
    deliver handler reports log.2 =
      ((deliver handler.logging reports log).1.2, (deliver handler.logging reports log).2) := by
  induction reports generalizing log with
  | nil => rfl
  | cons report rest ih =>
    obtain ⟨event, kept⟩ := report
    have hstep : handler.logging event log =
        ((log.1 ++ [⟨event, (handler event log.2).1, (handler event log.2).2⟩],
          (handler event log.2).1), (handler event log.2).2) := rfl
    rw [deliver, deliver, hstep]
    cases hevent : handler event log.2 with
    | mk gathered outcome =>
      cases outcome with
      | ok a => exact ih (_, gathered)
      | error fault => rfl

/-- The reader of a handler goes on as that of its log does. -/
theorem shadows_logging (handler : Handler η) :
    (listener handler).Shadows (fun g => (g.1, g.2.2)) (listener handler.logging) where
  hear signal c gathered := by
    unfold listener
    dsimp only
    rw [deliver_logging handler _ gathered.2]
    cases deliver handler.logging (gathered.1.hear signal c).1.reports gathered.2 with
    | mk log refusal =>
      cases refusal with
      | some refusal => rfl
      | none => cases (gathered.1.hear signal c).2 <;> rfl
  place _ := rfl

theorem gathered_listener (handler : Handler η) (signal : Signal StateName)
    (c : Context StateName) (g : Reader × η) :
    ((listener handler).hear signal c g).gathered.2 =
      (deliver handler (g.1.hear signal c).1.reports g.2).1 := by
  unfold listener
  dsimp only
  cases deliver handler (g.1.hear signal c).1.reports g.2 with
  | mk rest refusal =>
    cases refusal with
    | some refusal => rfl
    | none => cases (g.1.hear signal c).2 <;> rfl

/-- What a handler keeps over each event it keeps over all that are delivered to it. -/
theorem deliver_keeps {handler : Handler η} {P : η → Prop} {E : Event → Prop}
    (keeps : ∀ event gathered, E event → P gathered → P (handler event gathered).1)
    {reports : List (Event × Reader)} (hreports : ∀ report ∈ reports, E report.1) {gathered : η}
    (h : P gathered) : P (deliver handler reports gathered).1 := by
  induction reports generalizing gathered with
  | nil => exact h
  | cons report rest ih =>
    obtain ⟨event, kept⟩ := report
    have hevent : P (handler event gathered).1 :=
      keeps event gathered (hreports _ List.mem_cons_self) h
    rw [deliver]
    cases hhandler : handler event gathered with
    | mk later outcome =>
      rw [hhandler] at hevent
      cases outcome with
      | ok a => exact ih (fun report hr => hreports report (List.mem_cons_of_mem _ hr)) hevent
      | error fault => exact hevent

end Reader

/-- A line ends alike with and without a log, and the same has been gathered. -/
theorem readLine_logging (settings : Settings) (strict : Bool) (handler : Handler η)
    (entrance : Entrance) (line : Option Text) (log : List (Handler.Step η) × η) :
    readLine settings strict handler entrance line log.2 =
      ((readLine settings strict handler.logging entrance line log).1.2,
        (readLine settings strict handler.logging entrance line log).2) := by
  have hread := grammar.read_shadowed (Reader.shadows_logging handler) settings strict
    entrance.state line ({}, log)
  unfold readLine readWith
  dsimp only at hread ⊢
  rw [hread]
  cases grammar.read settings strict (Reader.listener handler.logging) entrance.state line
    ({}, log) with
  | mk heard outcome =>
    cases outcome with
    | error fault => rfl
    | ok result =>
      dsimp only [Handler.logging]
      cases handler (.parsed result) heard.2.2 with
      | mk gathered last => cases last <;> rfl

/-- What a listener keeps over each signal it keeps over a whole line. -/
theorem Graph.read_keeps {σ τ : Type} (G : Graph σ) {L : Listener σ τ} {P : τ → Prop}
    (keeps : ∀ signal c gathered, P gathered → P (L.hear signal c gathered).gathered)
    (settings : Settings) (strict : Bool) (initial : σ) (line : Option Text) {gathered : τ}
    (h : P gathered) : P (G.read settings strict L initial line gathered).1 := by
  unfold read readText
  dsimp only
  split
  · exact h
  · have hmoves : Moves G L (Session.start settings strict (line.getD []) gathered) _ :=
      Machine.Follows.readFrom initial (positionLimit settings (line.getD [])) _
    have hrun := hmoves.induct (P := fun s => P s.gathered) (fun move hs => by
      cases move with
      | told signal => exact keeps signal _ _ hs
      | _ => exact hs) h
    cases hr : Machine.readFrom G L initial (positionLimit settings (line.getD []))
        (Session.start settings strict (line.getD []) gathered) with
    | ok a t =>
      rw [Machine.after_of_ok hr] at hrun
      exact hrun
    | error fault t =>
      rw [Machine.after_of_error hr] at hrun
      exact hrun

/-- What a handler keeps over each event that is reported it keeps over a whole line. -/
theorem readLine_keeps {handler : Handler η} {P : η → Prop} {E : Event → Prop}
    (reported : ∀ signal c r, ∀ event ∈ Reader.added signal c r, E event)
    (parsed : ∀ result, E (.parsed result))
    (keeps : ∀ event gathered, E event → P gathered → P (handler event gathered).1)
    (settings : Settings) (strict : Bool) (entrance : Entrance) (line : Option Text) {gathered : η}
    (h : P gathered) : P (readLine settings strict handler entrance line gathered).1 := by
  have hread : P (grammar.read settings strict (Reader.listener handler) entrance.state line
      ({}, gathered)).1.2 := by
    refine grammar.read_keeps (P := fun g : Reader × η => P g.2) (fun signal c g hg => ?_) settings
      strict _ _ h
    rw [Reader.gathered_listener]
    exact Reader.deliver_keeps keeps
      (fun report hr => reported signal c g.1 _ (List.mem_map_of_mem hr)) hg
  unfold readLine readWith
  dsimp only
  cases hheard : grammar.read settings strict (Reader.listener handler) entrance.state line
    ({}, gathered) with
  | mk heard outcome =>
    rw [hheard] at hread
    cases outcome with
    | error fault => exact hread
    | ok result =>
      have hlast : P (handler (.parsed result) heard.2).1 := keeps _ _ (parsed result) hread
      dsimp only
      cases hparsed : handler (.parsed result) heard.2 with
      | mk last verdict =>
        rw [hparsed] at hlast
        cases verdict <;> exact hlast

end

/-! ## Well-formed addresses -/

/-- Neither the type nor the name of the node is empty; the name may be missing. -/
def Node.IsFilled (n : Node) : Prop := n.type ≠ [] ∧ n.name ≠ some []

/-- The node has a type and a name, and neither is empty. -/
def Node.IsComplete (n : Node) : Prop := n.type ≠ [] ∧ ∃ name, n.name = some name ∧ name ≠ []

/-- No type and no name is empty, and only the last node may lack its name. -/
structure WellFormed (address : List Node) : Prop where
  filled : ∀ n ∈ address, n.IsFilled
  named : ∀ n ∈ address.dropLast, n.name ≠ none

theorem Node.IsFilled.isComplete {n : Node} (h : n.IsFilled) (hname : n.name ≠ none) :
    n.IsComplete := by
  obtain ⟨name, hn⟩ := Option.ne_none_iff_exists'.1 hname
  refine ⟨h.1, name, hn, ?_⟩
  rintro rfl
  exact h.2 hn

theorem Node.IsComplete.isFilled {n : Node} (h : n.IsComplete) : n.IsFilled := by
  obtain ⟨htype, name, hname, hne⟩ := h
  refine ⟨htype, ?_⟩
  rw [hname]
  exact fun heq => hne (Option.some.inj heq)

theorem Node.IsComplete.name_ne_none {n : Node} (h : n.IsComplete) : n.name ≠ none := by
  obtain ⟨-, name, hname, -⟩ := h
  rw [hname]
  nofun

namespace WellFormed

variable {address : List Node} {n : Node}

/-- A node can be added to complete ones. -/
theorem concat (h : ∀ m ∈ address, m.IsComplete) (hn : n.IsFilled) :
    WellFormed (address ++ [n]) where
  filled m hm := by
    rcases List.mem_append.1 hm with hm | hm
    · exact (h m hm).isFilled
    · obtain rfl := List.mem_singleton.1 hm
      exact hn
  named m hm := by
    rw [List.dropLast_concat] at hm
    exact (h m hm).name_ne_none

theorem of_complete (h : ∀ m ∈ address, m.IsComplete) : WellFormed address where
  filled m hm := (h m hm).isFilled
  named m hm := (h m (List.mem_of_mem_dropLast hm)).name_ne_none

/-- All nodes but the last one are complete. -/
theorem dropLast (h : WellFormed address) : ∀ m ∈ address.dropLast, m.IsComplete := fun m hm =>
  (h.filled m (List.mem_of_mem_dropLast hm)).isComplete (h.named m hm)

end WellFormed

/-! ## What an event does to the address -/

namespace Command

variable {c : Command} {n : Node} {before : List Node}

theorem pendingType?_of_concat (h : c.address = before ++ [n]) :
    c.pendingType? = if n.name = none then some n.type else none := by
  obtain ⟨type, name⟩ := n
  unfold pendingType?
  rw [h, List.getLast?_concat]
  cases name <;> rfl

/-- A type that waits for its name is that of the last node. -/
theorem exists_last_of_pendingType? (h : c.pendingType? ≠ none) :
    ∃ before n, c.address = before ++ [n] := by
  rcases List.eq_nil_or_concat' c.address with hnil | ⟨before, n, hlast⟩
  · refine absurd ?_ h
    unfold pendingType?
    rw [hnil]
    rfl
  · exact ⟨before, n, hlast⟩

/-- Where no type waits for its name, every node has its name. -/
theorem complete_of_pendingType? (h : WellFormed c.address) (hpending : c.pendingType? = none) :
    ∀ m ∈ c.address, m.IsComplete := by
  rcases List.eq_nil_or_concat' c.address with hnil | ⟨before, n, hlast⟩
  · rw [hnil]
    exact fun m hm => absurd hm List.not_mem_nil
  · have hname : n.name ≠ none := by
      rw [pendingType?_of_concat hlast] at hpending
      exact fun hn => absurd (hpending.symm.trans (if_pos hn)) nofun
    have hbefore := h.dropLast
    rw [hlast] at h hbefore ⊢
    rw [List.dropLast_concat] at hbefore
    intro m hm
    rcases List.mem_append.1 hm with hm | hm
    · exact hbefore m hm
    · obtain rfl := List.mem_singleton.1 hm
      exact (h.filled m (List.mem_append_right _ List.mem_cons_self)).isComplete hname

/-- A node is only added where no type waits for its name. -/
theorem wellFormed_addNode {type : Text} (h : WellFormed c.address)
    (hpending : c.pendingType? = none) (htype : type ≠ []) :
    WellFormed (c.addNode type).address :=
  .concat (complete_of_pendingType? h hpending) ⟨htype, nofun⟩

/-- The last node gets the name that its type waits for. -/
theorem wellFormed_nameNode {name : Text} (h : WellFormed c.address)
    (hpending : c.pendingType? ≠ none) (hname : name ≠ []) :
    WellFormed (c.nameNode name).address := by
  obtain ⟨before, n, hlast⟩ := exists_last_of_pendingType? hpending
  have hbefore := h.dropLast
  have htype : n.type ≠ [] := (h.filled n (by rw [hlast]; simp)).1
  have hnamed : (c.nameNode name).address = before ++ [{ n with name := some name }] := by
    rw [nameNode, hlast]
    simp [List.modify_eq_set_getElem?]
  rw [hlast, List.dropLast_concat] at hbefore
  rw [hnamed]
  exact .concat hbefore ⟨htype, fun heq => hname (Option.some.inj heq)⟩

theorem wellFormed_receiveParent {index : Int} (h : WellFormed c.address) :
    WellFormed (c.receiveParent index).1.address := by
  unfold receiveParent
  dsimp only
  split
  · exact h
  · exact .of_complete h.dropLast

theorem wellFormed_receiveType {index : Int} {type : Text} (h : WellFormed c.address) :
    WellFormed (c.receiveType index type).1.address := by
  unfold receiveType
  dsimp only
  split
  · exact h
  · next htype =>
    cases hpending : c.towardsOperation.pendingType? with
    | some pending => exact h
    | none => exact wellFormed_addNode (c := c.towardsOperation) h hpending (by simpa using htype)

theorem wellFormed_receiveName {index : Int} {name : Text} (h : WellFormed c.address) :
    WellFormed (c.receiveName index name).1.address := by
  unfold receiveName
  split
  · exact h
  · next hname =>
    split
    · next hends =>
      exact wellFormed_nameNode h (Option.isSome_iff_ne_none.1 hends) (by simpa using hname)
    · exact h

theorem wellFormed_receiveTypeOrName {index : Int} {text : Text} (h : WellFormed c.address)
    (htext : text ≠ []) : WellFormed (c.receiveTypeOrName index text).address := by
  have hc : WellFormed c.towardsOperation.address := h
  unfold receiveTypeOrName
  dsimp only
  split
  · next hends => exact wellFormed_nameNode hc (Option.isSome_iff_ne_none.1 hends) htext
  · next hends =>
    refine wellFormed_addNode hc ?_ htext
    simpa [endsOnType] using hends

theorem wellFormed_receiveOperationSeparator {index : Int} (h : WellFormed c.address) :
    WellFormed (c.receiveOperationSeparator index).1.address := by
  unfold receiveOperationSeparator
  dsimp only
  split <;> exact h

theorem address_receiveArgument (c : Command) (name : Option Text) (value : Text)
    (start stop : Int) : (c.receiveArgument name value start stop).address = c.address := by
  unfold receiveArgument
  dsimp only
  split <;> rfl

end Command

/-- A node that may be a type or a name is reported with its text.  An empty type and an empty name
may be reported where it is clear which of them is meant, and the command refuses them. -/
def Event.IsFilled (event : Event) : Prop := ∀ index, event ≠ .nodeTypeOrName index []

namespace Command

variable {c : Command} {event : Event}

/-- Each event keeps the address well formed, also if it is refused. -/
theorem wellFormed_receive (h : WellFormed c.address) (hevent : event.IsFilled) :
    WellFormed (c.receive event).1.address := by
  cases event with
  | rootNode index => exact .of_complete fun m hm => absurd hm List.not_mem_nil
  | parentNode index => exact wellFormed_receiveParent h
  | nodeType index type => exact wellFormed_receiveType h
  | nodeName index name => exact wellFormed_receiveName h
  | nodeTypeOrName index text =>
    refine wellFormed_receiveTypeOrName h ?_
    rintro rfl
    exact hevent index rfl
  | operationSeparator index => exact wellFormed_receiveOperationSeparator h
  | argument name value start stop =>
    have haddress := address_receiveArgument c name value start stop
    exact haddress ▸ h
  | _ => exact h

/-- Where the end of the address is accepted, every node has its name. -/
theorem complete_of_receiveOperationSeparator {index : Int} (h : WellFormed c.address)
    (haccepted : (c.receiveOperationSeparator index).2 = .ok ()) :
    ∀ m ∈ (c.receiveOperationSeparator index).1.address, m.IsComplete := by
  unfold receiveOperationSeparator at haccepted ⊢
  dsimp only at haccepted ⊢
  cases hpending : c.towardsOperation.pendingType? with
  | some type =>
    rw [hpending] at haccepted
    cases haccepted
  | none => exact complete_of_pendingType? (c := c.towardsOperation) h hpending

end Command

/-! ## What a reader reports -/

namespace Reader

open Reading

variable {c : Context StateName} {r : Reader} {event : Event}

/-- The events of a node that is left. -/
theorem added_leaving_node :
    added (.leaving .node) c r =
      if c.character? = some '=' then
        [.nodeType r.tokens.start r.tokens.buffer, .nodeTypeNameSeparator c.location]
      else if r.expectsName then
        if !r.tokens.buffer.isEmpty || !c.atEnd then [.nodeName r.tokens.start r.tokens.buffer]
        else []
      else if r.tokens.buffer = ['.', '.'] then [.parentNode r.tokens.start]
      else if !r.tokens.buffer.isEmpty && r.tokens.buffer != ['.'] then
        [.nodeTypeOrName r.tokens.start r.tokens.buffer]
      else [] := by
  unfold added Reader.hear
  rw [show Reading.signal c (.leaving .node) { reader := r } = nodeDone c { reader := r } from rfl,
    nodeDone, bind_apply, take_apply]
  dsimp only
  rw [bind_apply, tokens_apply]
  dsimp only
  by_cases hequals : c.character? = some '='
  · rw [if_pos hequals, if_pos hequals]
    rfl
  rw [if_neg hequals, if_neg hequals, bind_apply, get_apply]
  dsimp only
  by_cases hname : r.expectsName = true
  · rw [if_pos hname, if_pos hname, bind_apply, update_apply]
    dsimp only
    cases !r.tokens.buffer.isEmpty || !c.atEnd <;> rfl
  rw [if_neg hname, if_neg hname]
  by_cases hparent : r.tokens.buffer = ['.', '.']
  · rw [if_pos hparent, if_pos hparent]
    rfl
  rw [if_neg hparent, if_neg hparent]
  cases !r.tokens.buffer.isEmpty && r.tokens.buffer != ['.'] <;> rfl

theorem added_entered_nodeSeparator :
    added (.entered .nodeSeparator) c r =
      if r.addressStart = some c.location then [.rootNode c.location]
      else [.nodeSeparator c.location] := by
  unfold added Reader.hear
  rw [show Reading.signal c (.entered .nodeSeparator) { reader := r } = Reading.entered c
    .nodeSeparator { reader := r } from rfl, entered, bind_apply, update_apply]
  dsimp only
  rw [bind_apply, get_apply]
  dsimp only
  by_cases hroot : r.addressStart = some c.location
  · rw [if_pos hroot, if_pos hroot]
    rfl
  · rw [if_neg hroot, if_neg hroot]
    rfl

/-- What may be a type or a name is reported only if it holds text. -/
theorem isFilled_of_mem_added {signal : Signal StateName} (h : event ∈ added signal c r) :
    event.IsFilled := by
  rintro index rfl
  have hpart : Event.Part.address = partOf signal := part_of_mem_added h
  cases signal with
  | entered x =>
    cases x with
    | nodeSeparator =>
      rw [added_entered_nodeSeparator] at h
      split at h <;> exact absurd (List.mem_singleton.1 h) nofun
    | operationSeparator =>
      have hadded : added (.entered .operationSeparator) c r =
          [Event.operationSeparator c.location] := rfl
      rw [hadded] at h
      exact absurd (List.mem_singleton.1 h) nofun
    | _ => cases hpart
  | leaving x =>
    cases x with
    | node =>
      rw [added_leaving_node] at h
      split at h
      · simp at h
      · split at h
        · split at h <;> simp at h
        · split at h
          · simp at h
          · split at h
            · next hfilled => simp_all
            · simp at h
    | _ => cases hpart
  | _ => cases hpart

end Reader

/-! ## What a run keeps -/

/-- After the event the address is well formed, and complete if the event is the end of the address
and was accepted. -/
structure Handler.Step.IsWellFormed (step : Handler.Step Command) : Prop where
  wellFormed : WellFormed step.gathered.address
  complete : ∀ index, step.event = .operationSeparator index → step.outcome = .ok () →
    ∀ n ∈ step.gathered.address, n.IsComplete

namespace Command

theorem handler_fst (event : Event) (c : Command) : (handler event c).1 = (c.receive event).1 := by
  unfold handler
  cases c.receive event with
  | mk later outcome => cases outcome <;> rfl

theorem receive_of_handler_ok {event : Event} {c : Command} (h : (handler event c).2 = .ok ()) :
    (c.receive event).2 = .ok () := by
  unfold handler at h
  cases hreceive : c.receive event with
  | mk later outcome =>
    rw [hreceive] at h
    cases outcome with
    | ok a => rfl
    | error e => cases h

/-- A well-formed address is well formed after a further event. -/
theorem step_isWellFormed {event : Event} {c : Command} (h : WellFormed c.address)
    (hevent : event.IsFilled) :
    Handler.Step.IsWellFormed
      { event, gathered := (handler event c).1, outcome := (handler event c).2 } where
  wellFormed := by
    rw [handler_fst]
    exact wellFormed_receive h hevent
  complete index hend haccepted := by
    obtain rfl : event = .operationSeparator index := hend
    rw [handler_fst]
    exact complete_of_receiveOperationSeparator h (receive_of_handler_ok haccepted)

/-- Addresses stay well formed.  From a base address of complete nodes on, whatever the line, the
settings and the strictness, after every event that a line has for a command each node of its
address has a type, no name is empty and only the last node may lack its name, also if the event is
refused; and if the end of the address is accepted, every node is complete.  The log itself changes
nothing about the line. -/
theorem addresses_stay_wellFormed (settings : Settings) (strict : Bool) (entrance : Entrance)
    (line : Option Text) {base : List Node} (hbase : ∀ n ∈ base, n.IsComplete) :
    let logged := readLine settings strict handler.logging entrance line ([], relativeTo base)
    readLine settings strict handler entrance line (relativeTo base) = (logged.1.2, logged.2) ∧
      ∀ step ∈ logged.1.1, step.IsWellFormed := by
  intro logged
  refine ⟨readLine_logging settings strict handler entrance line ([], relativeTo base), ?_⟩
  -- the invariant: the address is well formed now, and it was so after each event
  have hlogged : WellFormed logged.1.2.address ∧ ∀ step ∈ logged.1.1, step.IsWellFormed := by
    refine readLine_keeps (P := fun log : List (Handler.Step Command) × Command =>
        WellFormed log.2.address ∧ ∀ step ∈ log.1, step.IsWellFormed)
      (fun _ _ _ _ => Reader.isFilled_of_mem_added) (fun _ _ => nofun) ?_ settings strict entrance
      line ⟨.of_complete hbase, fun _ hstep => absurd hstep List.not_mem_nil⟩
    rintro event log hevent ⟨hnow, hbefore⟩
    have hstep := step_isWellFormed hnow hevent
    refine ⟨hstep.wellFormed, fun step hmem => ?_⟩
    rcases List.mem_append.1 hmem with hmem | hmem
    · exact hbefore step hmem
    · obtain rfl := List.mem_singleton.1 hmem
      exact hstep
  exact hlogged.2

/-- On this line a type waits for its name, and the end of the address is refused. -/
theorem addresses_stay_wellFormed_of_refused :
    (∀ n ∈ [Node.mk ['a'] (some ['b'])], n.IsComplete) ∧
    let logged := readLine {} true handler.logging .command (some "./c/\"d\"/e:f".toList)
      ([], relativeTo [⟨['a'], some ['b']⟩])
    logged.1.2.address = [⟨['a'], some ['b']⟩, ⟨['c'], some ['d']⟩, ⟨['e'], none⟩] ∧
      (∀ step ∈ logged.1.1, step.IsWellFormed) := by
  have hbase : ∀ n ∈ [Node.mk ['a'] (some ['b'])], n.IsComplete := by
    intro n hn
    obtain rfl := List.mem_singleton.1 hn
    exact ⟨by decide, ['b'], rfl, by decide⟩
  refine ⟨hbase, by decide +kernel, ?_⟩
  exact (addresses_stay_wellFormed {} true .command (some "./c/\"d\"/e:f".toList) hbase).2

end Command
end CommandLine
