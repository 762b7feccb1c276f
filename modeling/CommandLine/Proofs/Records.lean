/-
# `CommandLine.Proofs.Records` — listeners that keep step with the active states

A listener is steady (`Listener.Steady`) when what it has gathered fits the active states and what
it finds wrong is about the line.  Four listeners are: the reader of a command line with a handler
that refuses malformed operations only, the builder of a structured value, the listener of a value
that is being typed, and any of them with a trace kept beside it.

On a signal the reader reports what belongs to it (`Reading.Tells`), all of one part of the line, and
it finds fault with the operation only.

The builder keeps one level for each value, list or object that is active (`Levels`), so
there is a level wherever an item is read.  The trace replays to the active states: reading it as
a word of opening and closing brackets, `entered` and `leaving`, what is left open is what is
active (`Signal.replay`).
-/
import CommandLine.Command.Basic
import CommandLine.Completion
import CommandLine.Proofs.Nesting
import CommandLine.Value.Builder

namespace CommandLine

/-! ## Replaying a trace -/

namespace Signal

variable {σ : Type} [DecidableEq σ]

/-- What is open after a signal: a state is closed only while it is the one opened last. -/
def apply (opened : List σ) : Signal σ → Option (List σ)
  | entered x => some (x :: opened)
  | leaving x =>
    match opened with
    | y :: outer => if x = y then some outer else none
    | [] => none
  | content | itemEnd | nameEnd => some opened

/-- What is open after some signals, the state opened last first; nothing if a state is closed that
is not the one opened last. -/
def replay (signals : List (Signal σ)) : Option (List σ) := signals.foldlM apply []

/-- The signals are a balanced word: every state that is entered is left, the last one first. -/
def Balanced (signals : List (Signal σ)) : Prop := replay signals = some []

theorem replay_concat {signals : List (Signal σ)} {opened : List σ}
    (h : replay signals = some opened) (signal : Signal σ) :
    replay (signals ++ [signal]) = apply opened signal := by
  have h' : signals.foldlM apply [] = some opened := h
  rw [replay, List.foldlM_append, h']
  show (apply opened signal >>= fun opened => some opened) = _
  cases apply opened signal <;> rfl

end Signal

namespace Listener

variable {σ τ : Type}

/-- The signals of a trace. -/
def signals (trace : Array (Entry σ)) : List (Signal σ) := trace.toList.map Entry.signal

theorem signals_push (trace : Array (Entry σ)) (e : Entry σ) :
    signals (trace.push e) = signals trace ++ [e.signal] := by
  simp [signals]

variable [DecidableEq σ] {L : Listener σ τ} {guard : Signal σ → List σ → Prop}
  {reads : List σ → Prop} {character : Option Char} {J : List σ → τ → Prop} {E : τ → Prop}

/-- What a recording listener has gathered: a trace that replays to the active states, and what the
listener inside has gathered. -/
def Recorded (J : List σ → τ → Prop) (active : List σ) (gathered : Array (Entry σ) × τ) : Prop :=
  Signal.replay (signals gathered.1) = some active ∧ J active gathered.2

/-- The trace of a further signal. -/
theorem keeps_recording {strict : Bool} {signal : Signal σ} {c : Context σ}
    {gathered : Array (Entry σ) × τ} {before after : List σ}
    (hreplay : Signal.replay (signals gathered.1) = some before)
    (happly : Signal.apply before signal = some after)
    (h : (L.hear signal c gathered.2).Keeps strict E (J after)) :
    ((recording L).hear signal c gathered).Keeps strict (fun g => E g.2) (Recorded J after) := by
  have htrace : Signal.replay (signals (gathered.1.push (Entry.of signal c))) = some after := by
    rw [signals_push, Signal.replay_concat hreplay]
    exact happly
  rw [Reply.Keeps, recording_hear_verdict]
  rw [Reply.Keeps] at h
  cases hv : (L.hear signal c gathered.2).verdict with
  | accept =>
    rw [hv] at h
    exact ⟨htrace, h⟩
  | complain e =>
    rw [hv] at h
    exact ⟨h.1, htrace, h.2⟩
  | refuse fault =>
    rw [hv] at h
    exact h

/-- A trace beside a steady listener keeps step as well. -/
theorem Steady.recording (steady : L.Steady guard reads character J E) :
    (recording L).Steady guard reads character (Recorded J) fun g => E g.2 where
  entered hc hactive hguard hg :=
    keeps_recording hg.1 rfl (steady.entered hc hactive hguard hg.2)
  leaving hc hactive hguard hg :=
    keeps_recording hg.1 (if_pos rfl) (steady.leaving hc hactive hguard hg.2)
  content hguard hg := keeps_recording hg.1 rfl (steady.content hguard hg.2)
  itemEnd hguard hg := keeps_recording hg.1 rfl (steady.itemEnd hguard hg.2)
  nameEnd hguard hg := keeps_recording hg.1 rfl (steady.nameEnd hguard hg.2)
  place hreads hg := steady.place hreads hg.2
  sound hg := steady.sound hg.2

omit [DecidableEq σ] in
/-- A listener that keeps no record of the active states is steady if what it finds wrong is about
the line. -/
theorem steady_of_aboutLine (hreads : ∀ active, ¬ reads active)
    (h : ∀ (strict : Bool) (signal : Signal σ) (c : Context σ) (gathered : τ),
      (L.hear signal c gathered).Keeps strict (fun _ => True) fun _ => True) :
    L.Steady guard reads character (fun _ _ => True) fun _ => True where
  entered _ _ _ _ := h _ _ _ _
  leaving _ _ _ _ := h _ _ _ _
  content _ _ := h _ _ _ _
  itemEnd _ _ := h _ _ _ _
  nameEnd _ _ := h _ _ _ _
  place hread _ := absurd hread (hreads _)
  sound _ := trivial

/-- On every character the listener keeps step with the states nested in the one at the bottom. -/
def SteadyIn {τ : Type} (L : Listener StateName τ) (bottom : StateName)
    (J : List StateName → τ → Prop) : Prop :=
  ∀ character, L.Steady (fun _ => Nested bottom) (ReadsItems bottom) character J fun _ => True

theorem SteadyIn.recording {τ : Type} {L : Listener StateName τ} {bottom : StateName}
    {J : List StateName → τ → Prop} (steady : L.SteadyIn bottom J) :
    (recording L).SteadyIn bottom (Recorded J) := fun character => (steady character).recording

end Listener

/-! ## Readers of command lines -/

/-- A malformed operation is an error about the line. -/
theorem Fault.AboutLine.operation (strict : Bool) (fault : OperationFault) :
    Fault.AboutLine strict (.format (.operation fault)) := .format rfl fun _ => rfl

/-- A part of a line, as far as the order of the parts matters. -/
inductive Event.Part where
  | address | name | rest
deriving DecidableEq

/-- The part that an event reports. -/
def Event.part : Event → Part
  | rootNode _ | parentNode _ | nodeType _ _ | nodeTypeNameSeparator _ | nodeName _ _
  | nodeTypeOrName _ _ | nodeSeparator _ | operationSeparator _ => .address
  | operationName _ _ => .name
  | _ => .rest

/-- The event reports an argument, or its name or `=` where it has no value. -/
def Event.reportsArgument : Event → Bool
  | argumentName _ _ | nameValueSeparator _ | argument _ _ _ _ => true
  | _ => false

/-- The event reports a header, or its name where it has no value. -/
def Event.reportsHeader : Event → Bool
  | headerName _ _ | header _ _ _ => true
  | _ => false

namespace Reading

variable {α β : Type}

section

variable (w : Reader.Work)

theorem bind_apply (m : Reading α) (k : α → Reading β) :
    (m >>= k) w = match m w with
      | .ok a w => k a w
      | .error e w => .error e w := by
  cases h : m w <;> simp only [bind, EStateM.bind, h]

theorem pure_apply (a : α) : (pure a : Reading α) w = .ok a w := rfl

theorem get_apply : (get : Reading Reader.Work) w = .ok w w := rfl

theorem report_apply (event : Event) :
    report event w = .ok () { w with reports := w.reports ++ [(event, w.reader)] } := rfl

theorem update_apply (change : Reader → Reader) :
    update change w = .ok () { w with reader := change w.reader } := rfl

theorem mapTokens_apply (change : Tokens → Tokens) :
    mapTokens change w =
      .ok () { w with reader := { w.reader with tokens := change w.reader.tokens } } := rfl

theorem tokens_apply : tokens w = .ok w.reader.tokens w := rfl

theorem take_apply :
    take w = .ok w.reader.tokens.buffer
      { w with reader := { w.reader with tokens := { w.reader.tokens with buffer := [] } } } := rfl

theorem fail_apply (fault : OperationFault) :
    (fail fault : Reading α) w = .error (.operation fault) w := rfl

end

/-- The part that is reported on a signal. -/
def partOf : Signal StateName → Event.Part
  | .entered .nodeSeparator | .entered .operationSeparator | .leaving .node => .address
  | .leaving .commandName | .leaving .operationName => .name
  | _ => .rest

/-- What is reported on a signal: tokens as they were read, separators and delimiters where the
cursor stands. -/
def Tells (c : Context StateName) : Signal StateName → Event → Prop
  | .entered .command, e => ∃ format, e = .format format
  | .entered .nodeSeparator, e => e = .rootNode c.location ∨ e = .nodeSeparator c.location
  | .entered .operationSeparator, e => e = .operationSeparator c.location
  | .entered .argumentList, e => e = .argumentSeparator c.location
  | .entered .propertyList, e => e = .propertyListStart c.location
  | .entered .headerList, e => e = .headerListStart c.location
  | .leaving .node, e => e.part = .address
  | .leaving .commandName, e | .leaving .operationName, e => e.part = .name
  | .leaving .argument, e | .leaving .argumentValue, e | .leaving .property, e =>
    e.reportsArgument = true ∨ e = .argumentSeparator c.location
  | .leaving .header, e => e.reportsHeader = true ∨ e = .headerSeparator c.location
  | .leaving .propertyList, e => e = .propertyListEnd c.location
  | .leaving .headerList, e => e = .headerListEnd c.location
  | .leaving .outputTarget, e => ∃ i target, e = .outputTarget i target
  | _, _ => False

/-- The reader has gone on at work, and `P` holds of all that it has reported since. -/
def Adds (P : Event → Prop) (w w' : Reader.Work) : Prop :=
  ∃ reports, w'.reports = w.reports ++ reports ∧ ∀ r ∈ reports, P r.1

theorem Adds.same {P : Event → Prop} {w w' : Reader.Work} (h : w'.reports = w.reports) :
    Adds P w w' :=
  ⟨[], by rw [h, List.append_nil], fun _ hr => absurd hr List.not_mem_nil⟩

theorem Adds.trans {P : Event → Prop} {w₁ w₂ w₃ : Reader.Work} (h : Adds P w₁ w₂)
    (h' : Adds P w₂ w₃) : Adds P w₁ w₃ := by
  obtain ⟨first, hfirst, hP⟩ := h
  obtain ⟨second, hsecond, hP'⟩ := h'
  refine ⟨first ++ second, by rw [hsecond, hfirst, List.append_assoc], fun r hr => ?_⟩
  rcases List.mem_append.1 hr with hr | hr
  · exact hP r hr
  · exact hP' r hr

/-- The program reports events of which `P` holds and finds fault with the operation only. -/
def Reports (P : Event → Prop) (p : Reading α) : Prop :=
  ∀ w, match p w with
    | .ok _ w' => Adds P w w'
    | .error e w' => Adds P w w' ∧ ∃ fault, e = .operation fault

namespace Reports

variable {P : Event → Prop}

theorem pure (a : α) : Reports P (pure a) := fun _ => .same rfl

theorem fail (fault : OperationFault) : Reports P (fail fault : Reading α) :=
  fun _ => ⟨.same rfl, fault, rfl⟩

theorem get : Reports P get := fun _ => .same rfl

theorem report {event : Event} (h : P event) : Reports P (report event) :=
  fun w => ⟨[(event, w.reader)], rfl, by simpa using h⟩

theorem update (change : Reader → Reader) : Reports P (update change) := fun _ => .same rfl

theorem bind {p : Reading α} {k : α → Reading β} (hp : Reports P p)
    (hk : ∀ a, Reports P (k a)) : Reports P (p >>= k) := by
  intro w
  have h := hp w
  rw [bind_apply]
  cases hpw : p w with
  | ok a w₁ =>
    rw [hpw] at h
    have h' := hk a w₁
    dsimp only
    cases hkw : k a w₁ with
    | ok b w₂ =>
      rw [hkw] at h'
      exact h.trans h'
    | error e w₂ =>
      rw [hkw] at h'
      exact ⟨h.trans h'.1, h'.2⟩
  | error e w₁ =>
    rw [hpw] at h
    exact h

theorem ite {c : Prop} [Decidable c] {p q : Reading α} (hp : Reports P p) (hq : Reports P q) :
    Reports P (if c then p else q) := by
  split
  · exact hp
  · exact hq

theorem tokens : Reports P tokens := get.bind fun _ => .pure _

theorem mapTokens (change : Tokens → Tokens) : Reports P (mapTokens change) := .update _

theorem take : Reports P take := tokens.bind fun _ => (mapTokens _).bind fun _ => .pure _

variable (c : Context StateName)

theorem reportOn (character : Char) {event : Event} (h : P event) :
    Reports P (reportOn c character event) := .ite (.report h) (.pure _)

theorem takeValue : Reports P (takeValue c) := take.bind fun _ => .pure _

theorem nodeDone : Reports (Tells c (.leaving .node)) (nodeDone c) := by
  refine take.bind fun text => tokens.bind fun t => .ite ?_ ?_
  · exact .bind (.report rfl) fun _ => .bind (.report rfl) fun _ => .update _
  · refine get.bind fun w => .ite ?_ (.ite (.report rfl) (.ite (.report rfl) (.pure _)))
    exact (update _).bind fun _ => .ite (.report rfl) (.pure _)

theorem operationNameDone : Reports (fun e => e.part = .name) operationNameDone :=
  take.bind fun _ => .ite (tokens.bind fun _ => .report rfl) (.pure _)

/-! ### Arguments and headers -/

section

variable (harguments : ∀ {event : Event}, event.reportsArgument = true → P event)
include harguments

theorem nameWithoutValue (start : Int) (name : Text) (separator : Option Int) :
    Reports P (nameWithoutValue start name separator) :=
  .bind (.report (harguments rfl)) fun _ => .report (harguments rfl)

theorem reportFlag (start : Int) (name value : Text) : Reports P (reportFlag c start name value) :=
  .ite (.report (harguments rfl)) (.pure _)

variable (hseparator : P (.argumentSeparator c.location))
include hseparator

omit harguments in
theorem argumentGap : Reports P (argumentGap c) := .ite (.report hseparator) (.pure _)

theorem argumentDone : Reports P (argumentDone c) := by
  have rest : Reports P (do
      Reading.argumentGap c
      Reading.mapTokens Tokens.clear) := (argumentGap c hseparator).bind fun _ => .mapTokens _
  refine tokens.bind fun t => ?_
  split
  · exact take.bind fun _ => .bind (.report (harguments rfl)) fun _ => rest
  · exact take.bind fun _ => .bind (.report (harguments rfl)) fun _ => rest
  · exact (nameWithoutValue harguments _ _ _).bind fun _ => rest

theorem argumentValueDone : Reports P (argumentValueDone c) := by
  refine .ite (take.bind fun _ => tokens.bind fun _ =>
    .bind (.report (harguments rfl)) fun _ => ?_) (.pure _)
  exact (argumentGap c hseparator).bind fun _ => .mapTokens _

theorem propertyDone : Reports P (propertyDone c) := by
  have rest : Reports P (do
      Reading.reportOn c ',' (.argumentSeparator c.location)
      Reading.mapTokens Tokens.clear) := (reportOn c _ hseparator).bind fun _ => .mapTokens _
  have flag (start : Int) (name value : Text) : Reports P (do
      Reading.reportFlag c start name value
      Reading.reportOn c ',' (.argumentSeparator c.location)
      Reading.mapTokens Tokens.clear) := (reportFlag c harguments _ _ _).bind fun _ => rest
  refine tokens.bind fun t => ?_
  split
  · refine take.bind fun text => ?_
    split
    · exact .ite ((fail _).bind fun _ => flag _ _ _) (flag _ _ _)
    · exact flag _ _ _
  · exact (fail _).bind fun _ => rest
  · refine (takeValue c).bind fun value => .ite ?_ ?_
    · exact (nameWithoutValue harguments _ _ _).bind fun _ => rest
    · exact .bind (.report (harguments rfl)) fun _ => rest

end

theorem headerDone : Reports (Tells c (.leaving .header)) (headerDone c) := by
  have rest : Reports (Tells c (.leaving .header)) (do
      Reading.reportOn c ';' (.headerSeparator c.location)
      Reading.mapTokens Tokens.clear) := (reportOn c _ (.inr rfl)).bind fun _ => .mapTokens _
  refine tokens.bind fun t => ?_
  have last (name value : Text) : Reports (Tells c (.leaving .header)) (do
      if name.isEmpty then Reading.fail (.headerNameMissing t.start)
      if value.isEmpty then Reading.report (.headerName t.start name)
      else Reading.report (.header name value t.start)
      Reading.reportOn c ';' (.headerSeparator c.location)
      Reading.mapTokens Tokens.clear) := by
    have named : Reports (Tells c (.leaving .header)) (do
        if value.isEmpty then Reading.report (.headerName t.start name)
        else Reading.report (.header name value t.start)
        Reading.reportOn c ';' (.headerSeparator c.location)
        Reading.mapTokens Tokens.clear) :=
      .ite (.bind (.report (.inl rfl)) fun _ => rest) (.bind (.report (.inl rfl)) fun _ => rest)
    exact .ite ((fail _).bind fun _ => named) named
  split
  · exact take.bind fun _ => last _ _
  · exact (takeValue c).bind fun _ => last _ _

theorem outputTargetDone : Reports (Tells c (.leaving .outputTarget)) outputTargetDone :=
  take.bind fun _ => tokens.bind fun _ => .bind (.report ⟨_, _, rfl⟩) fun _ => .mapTokens _

theorem entered (state : StateName) : Reports (Tells c (.entered state)) (entered c state) := by
  cases state with
  | command => exact get.bind fun _ => .report ⟨_, rfl⟩
  | address => exact .update fun r => { r with addressStart := some c.location }
  | nodeSeparator =>
    exact (update _).bind fun _ => get.bind fun _ => .ite (.report (.inl rfl)) (.report (.inr rfl))
  | operationSeparator => exact (update _).bind fun _ => .report rfl
  | node | commandName | operationName | argument | property | header | outputTarget =>
    exact .mapTokens fun _ => Tokens.startAt c.location
  | argumentList => exact .ite (.report rfl) (.pure _)
  | nameValueSeparator | propertyValue | headerValue => exact take.bind fun _ => .mapTokens _
  | argumentValue =>
    exact .ite ((mapTokens _).bind fun _ => .mapTokens _) (.mapTokens _)
  | propertyList | headerList => exact .report rfl
  | _ => exact .pure _

theorem leaving (state : StateName) : Reports (Tells c (.leaving state)) (leaving c state) := by
  cases state with
  | node => exact nodeDone c
  | commandName | operationName => exact operationNameDone
  | argument => exact argumentDone c .inl (.inr rfl)
  | argumentValue => exact argumentValueDone c .inl (.inr rfl)
  | property => exact propertyDone c .inl (.inr rfl)
  | header => exact headerDone c
  | propertyList | headerList => exact .ite (.report rfl) (.pure _)
  | outputTarget => exact outputTargetDone c
  | _ => exact .pure _

theorem signal (heard : Signal StateName) : Reports (Tells c heard) (signal c heard) := by
  cases heard with
  | entered state => exact entered c state
  | leaving state => exact leaving c state
  | content => exact .mapTokens (·.append c.character)
  | itemEnd | nameEnd => exact .pure _

end Reports

theorem part_of_reportsArgument {event : Event} (h : event.reportsArgument = true) :
    event.part = .rest := by
  cases event <;> first | rfl | cases h

theorem part_of_reportsHeader {event : Event} (h : event.reportsHeader = true) :
    event.part = .rest := by
  cases event <;> first | rfl | cases h

/-- All that is reported on a signal belongs to one part of the line. -/
theorem Tells.part_eq {c : Context StateName} {heard : Signal StateName} {event : Event}
    (h : Tells c heard event) : event.part = partOf heard := by
  cases heard with
  | entered x =>
    cases x with
    | command =>
      obtain ⟨format, rfl⟩ := h
      rfl
    | nodeSeparator => rcases h with rfl | rfl <;> rfl
    | operationSeparator | argumentList | propertyList | headerList =>
      cases h
      rfl
    | _ => exact h.elim
  | leaving x =>
    cases x with
    | node | commandName | operationName => exact h
    | argument | argumentValue | property =>
      rcases h with h | rfl
      · exact part_of_reportsArgument h
      · rfl
    | header =>
      rcases h with h | rfl
      · exact part_of_reportsHeader h
      · rfl
    | propertyList | headerList =>
      cases h
      rfl
    | outputTarget =>
      obtain ⟨i, target, rfl⟩ := h
      rfl
    | _ => exact h.elim
  | _ => exact h.elim

end Reading

section

variable {η : Type}

/-- The handler refuses malformed operations only. -/
def Handler.IsFair (handler : Handler η) : Prop :=
  ∀ (event : Event) (gathered rest : η) (fault : Fault),
    handler event gathered = (rest, .error fault) →
      ∃ operationFault, fault = .format (.operation operationFault)

theorem Handler.isFair_collecting : Handler.collecting.IsFair := fun _ _ _ _ h => nomatch h

namespace Command

variable {c rest : Command} {e : FormatError}

theorem receiveParent_error {index : Int} (h : c.receiveParent index = (rest, .error e)) :
    ∃ fault, e = .operation fault := by
  unfold receiveParent at h
  dsimp only at h
  split at h
  · cases h
    exact ⟨_, rfl⟩
  · cases h

theorem receiveType_error {index : Int} {type : Text}
    (h : c.receiveType index type = (rest, .error e)) : ∃ fault, e = .operation fault := by
  unfold receiveType at h
  split at h
  · cases h
    exact ⟨_, rfl⟩
  · dsimp only at h
    split at h
    · cases h
      exact ⟨_, rfl⟩
    · cases h

theorem receiveName_error {index : Int} {name : Text}
    (h : c.receiveName index name = (rest, .error e)) : ∃ fault, e = .operation fault := by
  unfold receiveName at h
  split at h
  · cases h
    exact ⟨_, rfl⟩
  · split at h
    · cases h
    · cases h
      exact ⟨_, rfl⟩

theorem receiveOperationSeparator_error {index : Int}
    (h : c.receiveOperationSeparator index = (rest, .error e)) :
    ∃ fault, e = .operation fault := by
  unfold receiveOperationSeparator at h
  dsimp only at h
  split at h
  · cases h
    exact ⟨_, rfl⟩
  · cases h

/-- What a command refuses is a malformed operation. -/
theorem receive_error {event : Event} (h : c.receive event = (rest, .error e)) :
    ∃ fault, e = .operation fault := by
  cases event with
  | parentNode index => exact receiveParent_error h
  | nodeType index type => exact receiveType_error h
  | nodeName index name => exact receiveName_error h
  | operationSeparator index => exact receiveOperationSeparator_error h
  | _ => cases h

theorem isFair_handler : handler.IsFair := by
  intro event c rest fault h
  unfold handler at h
  split at h
  · cases h
  · next hreceive =>
    cases h
    obtain ⟨operationFault, rfl⟩ := receive_error hreceive
    exact ⟨operationFault, rfl⟩

end Command

namespace Reader

/-- What a handler refuses with is what delivering to it ends with. -/
theorem deliver_error {handler : Handler η} {P : Fault → Prop}
    (refuses : ∀ (event : Event) (gathered rest : η) (fault : Fault),
      handler event gathered = (rest, .error fault) → P fault)
    {reports : List (Event × Reader)} {gathered rest : η} {fault : Fault} {kept : Reader}
    (h : deliver handler reports gathered = (rest, some (fault, kept))) : P fault := by
  induction reports generalizing gathered with
  | nil => cases h
  | cons report later ih =>
    obtain ⟨event, held⟩ := report
    simp only [deliver] at h
    split at h
    · next hevent =>
      cases h
      exact refuses _ _ _ _ hevent
    · exact ih h

/-- The reader itself finds fault with the operation only. -/
theorem hear_error {signal : Signal StateName} {c : Context StateName} {r : Reader}
    {e : FormatError} (h : (r.hear signal c).2 = some e) : ∃ fault, e = .operation fault := by
  unfold hear at h
  split at h
  · cases h
  · next hw =>
    cases h
    have h := Reading.Reports.signal c signal { reader := r }
    rw [hw] at h
    exact h.2

/-- The reader of a command line accepts a signal or refuses it because of the operation. -/
theorem verdict_listener {handler : Handler η} (fair : handler.IsFair)
    (signal : Signal StateName) (c : Context StateName) (gathered : Reader × η) :
    ((listener handler).hear signal c gathered).verdict = .accept ∨
      ∃ fault, ((listener handler).hear signal c gathered).verdict =
        .refuse (.format (.operation fault)) := by
  unfold listener
  dsimp only
  cases hd : deliver handler (gathered.1.hear signal c).1.reports gathered.2 with
  | mk rest refusal =>
    cases refusal with
    | some refusal =>
      obtain ⟨operationFault, hfault⟩ := deliver_error fair hd
      exact .inr ⟨operationFault, congrArg Verdict.refuse hfault⟩
    | none =>
      cases he : (gathered.1.hear signal c).2 with
      | none => exact .inl rfl
      | some e =>
        obtain ⟨operationFault, rfl⟩ := hear_error he
        exact .inr ⟨operationFault, rfl⟩

/-- The reader of a command line finds fault with operations only. -/
theorem steady_listener {handler : Handler η} (fair : handler.IsFair)
    {guard : Signal StateName → List StateName → Prop} {reads : List StateName → Prop}
    {character : Option Char} (hreads : ∀ active, ¬ reads active) :
    (listener handler).Steady guard reads character (fun _ _ => True) fun _ => True := by
  refine Listener.steady_of_aboutLine hreads fun strict signal c gathered => ?_
  unfold Reply.Keeps
  rcases verdict_listener fair signal c gathered with h | ⟨operationFault, h⟩
  · rw [h]
    exact trivial
  · rw [h]
    exact ⟨Fault.AboutLine.operation strict operationFault, trivial⟩

end Reader
end

/-! ## The value that is being typed -/

theorem TypedValue.steady_listener {guard : Signal StateName → List StateName → Prop}
    {reads : List StateName → Prop} {character : Option Char}
    (hreads : ∀ active, ¬ reads active) :
    TypedValue.listener.Steady guard reads character (fun _ _ => True) fun _ => True := by
  refine Listener.steady_of_aboutLine hreads fun strict signal c content => ?_
  cases signal <;> exact trivial

/-! ## Structured values -/

namespace Value

open StateName

/-- An error that is found in a value, and nowhere else. -/
def IsValueError (e : FormatError) : Prop := e.isWrapper = false ∧ e.isTolerable = false

theorem IsValueError.aboutLine {e : FormatError} (h : IsValueError e) (strict : Bool) :
    Fault.AboutLine strict (.format e) := .format h.1 fun _ => h.2

theorem readByte_error {offset : Int} {token : Text} {e : FormatError}
    (h : readByte offset token = .error e) : IsValueError e := by
  unfold readByte at h
  split at h
  · cases h
    exact ⟨rfl, rfl⟩
  · split at h
    · cases h
    · cases h
      exact ⟨rfl, rfl⟩

theorem Level.value_error {l : Level} {e : FormatError} (h : l.value = .error e) :
    IsValueError e := by
  unfold Level.value at h
  split at h
  · split at h
    · cases h
      exact ⟨rfl, rfl⟩
    · cases h
  · cases h
  · split at h <;> cases h

/-- A list of actions fails as one of them does. -/
theorem exists_of_mapM_error {α β ε : Type} {act : α → Except ε β} {items : List α} {e : ε}
    (h : items.mapM act = .error e) : ∃ item ∈ items, act item = .error e := by
  induction items with
  | nil => cases h
  | cons item rest ih =>
    rw [List.mapM_cons] at h
    cases hitem : act item with
    | error found =>
      rw [hitem] at h
      cases h
      exact ⟨item, List.mem_cons_self, hitem⟩
    | ok answer =>
      cases hrest : rest.mapM act with
      | error found =>
        rw [hitem, hrest] at h
        cases h
        obtain ⟨other, hother, hact⟩ := ih hrest
        exact ⟨other, List.mem_cons_of_mem _ hother, hact⟩
      | ok answers =>
        rw [hitem, hrest] at h
        cases h

theorem readBytes_error {offset : Int} {text : Text} {e : FormatError}
    (h : readBytes offset text = .error e) : IsValueError e := by
  obtain ⟨token, -, htoken⟩ := exists_of_mapM_error h
  exact readByte_error htoken

namespace Builder

variable {b : Builder} {strict : Bool} {active outer : List StateName} {x : StateName}

/-- There is a level for each value, list or object that is active. -/
def Levels (active : List StateName) (b : Builder) : Prop :=
  b.levels.length = active.countP holdsItems

/-- Where a structured value is read there is a level. -/
theorem Levels.ne_nil (h : Levels active b) (hactive : Nested value active) : b.levels ≠ [] := by
  have : 0 < active.countP holdsItems :=
    List.countP_pos_iff.2 ⟨value, hactive.bottom_mem, rfl⟩
  intro hnil
  rw [Levels, hnil] at h
  exact absurd h (Nat.ne_of_lt this)

theorem keeps_mapLevel (change : Level → Level) (h : Levels active b) (hne : b.levels ≠ []) :
    (b.mapLevel change).Keeps strict (fun _ => True) (Levels active) := by
  unfold mapLevel
  cases hl : b.levels with
  | nil => exact absurd hl hne
  | cons level rest =>
    rw [Levels, hl] at h
    exact h

theorem keeps_mapDraft (change : Draft → Draft) (h : Levels active b) (hne : b.levels ≠ []) :
    (b.mapDraft change).Keeps strict (fun _ => True) (Levels active) := keeps_mapLevel _ h hne

theorem draft_eq (hne : b.levels ≠ []) : ∃ d, b.draft = .ok d := by
  unfold draft
  cases hl : b.levels with
  | nil => exact absurd hl hne
  | cons level rest => exact ⟨level.draft, rfl⟩

/-- The level of a list or an object that is left becomes a value. -/
theorem keeps_closeLevel (h : b.levels.length = outer.countP holdsItems + 1) :
    b.closeLevel.Keeps strict (fun _ => True) (Levels outer) := by
  unfold closeLevel
  cases hl : b.levels with
  | nil =>
    rw [hl] at h
    cases h
  | cons level rest =>
    rw [hl, List.length_cons] at h
    have hrest : rest.length = outer.countP holdsItems := Nat.succ.inj h
    dsimp only
    cases hv : level.finishItem.value with
    | error e => exact ⟨(Level.value_error hv).aboutLine strict, trivial⟩
    | ok v =>
      dsimp only
      split
      · exact hrest
      · next hne =>
        refine keeps_mapDraft _ hrest fun hnil => hne ?_
        exact List.isEmpty_iff.2 hnil

theorem keeps_closeBytes (offset : Int) (h : Levels active b) (hne : b.levels ≠ []) :
    (b.closeBytes (some offset)).Keeps strict (fun _ => True) (Levels active) := by
  obtain ⟨d, hd⟩ := draft_eq hne
  unfold closeBytes
  rw [hd]
  dsimp only
  cases hb : readBytes offset d.buffer with
  | error e => exact ⟨(readBytes_error hb).aboutLine strict, trivial⟩
  | ok octets => exact keeps_mapDraft _ h hne

theorem keeps_takeContent (character : Text) (location : Int) (h : Levels active b)
    (hne : b.levels ≠ []) : (b.takeContent character location).Keeps strict (fun _ => True) (Levels active) := by
  obtain ⟨d, hd⟩ := draft_eq hne
  rw [takeContent, hd]
  dsimp only
  split
  · exact ⟨rfl, h⟩
  · exact keeps_mapDraft _ h hne

theorem keeps_enterState (h : Levels outer b) (hx : Nested value (x :: outer)) :
    (b.enterState x).Keeps strict (fun _ => True) (Levels (x :: outer)) := by
  have inside (hroot : x.isRoot = false) : b.levels ≠ [] := by
    obtain ⟨y, rest, rfl, -, hy⟩ := hx.holder hroot
    exact h.ne_nil hy
  cases x with
  | value | list | object =>
    show b.levels.length + 1 = _
    rw [List.countP_cons_of_pos rfl, h]
  | valueQuotes | bytes =>
    refine keeps_mapDraft _ ?_ (inside rfl)
    rw [Levels, List.countP_cons_of_neg (by decide), h]
  | _ =>
    show b.levels.length = _
    rw [List.countP_cons_of_neg (by decide), h]

theorem keeps_leaveState (start : Int) (h : Levels (x :: outer) b)
    (hx : Nested value (x :: outer)) :
    (b.leaveState (some start) x).Keeps strict (fun _ => True) (Levels outer) := by
  have inside : b.levels ≠ [] := h.ne_nil hx
  cases x with
  | value | list | object =>
    rw [Levels, List.countP_cons_of_pos rfl] at h
    exact keeps_closeLevel h
  | valueQuotes =>
    rw [Levels, List.countP_cons_of_neg (by decide)] at h
    exact keeps_mapDraft _ h inside
  | bytes =>
    rw [Levels, List.countP_cons_of_neg (by decide)] at h
    exact keeps_closeBytes _ h inside
  | _ =>
    rw [Levels, List.countP_cons_of_neg (by decide)] at h
    exact h

/-- The builder of a structured value keeps its levels in step with the active states. -/
theorem steady_listener {character : Option Char} :
    listener.Steady (fun _ => Nested value) (ReadsItems value) character Levels
      fun _ => True where
  entered _ _ hguard hg := keeps_enterState hg hguard
  leaving {c x outer g} _ hactive hguard hg := by
    obtain ⟨frame, hframe, -⟩ := Context.frame?_of_active hactive
    show Reply.Keeps c.strict _ _ (g.leaveState (c.frame?.map Frame.location) x)
    rw [hframe]
    exact keeps_leaveState _ hg hguard
  content hguard hg := keeps_takeContent _ _ hg (hg.ne_nil hguard)
  itemEnd hguard hg := keeps_mapLevel _ hg (hg.ne_nil hguard)
  nameEnd hguard hg := keeps_mapDraft _ hg (hg.ne_nil hguard)
  place hreads hg := by
    obtain ⟨d, hd⟩ := draft_eq (hg.ne_nil hreads.2)
    refine ⟨d.place, ?_⟩
    show Except.map Draft.place (Builder.draft _) = _
    rw [hd]
    rfl
  sound _ := trivial

end Builder
end Value
end CommandLine
