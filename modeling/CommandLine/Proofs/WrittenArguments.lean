/-
# `CommandLine.Proofs.WrittenArguments` — arguments and the text that they have been read from

An argument says what stands in the line where it has been read, up to blanks that are trimmed off
(`Argument.StandsIn`).  Before it is complete there is only its token, which has taken the end of
the text that has been read so far (`Tokens.TakesEnd`).  What that means depends on how far the
token has come, and the active states say how far that is (`stageOf`):

    positional    a value without a name     the characters of the token
    name          an argument, a property    the characters of the token
    value         what follows the name      what the name was trimmed from, `=`, and the characters

`Held` says that a reader and its command have come that far.  A state that is entered starts a
token or, on `=`, ends its name (`Held.enters`, `Held.separates`); a character that is content joins
the token (`Held.content`).  When the state of a token is left, the command gains an argument that
stands in the text (`Held.leaves`).  No other signal concerns the arguments (`Reader.spares_told`).
-/
import CommandLine.Proofs.Addresses
import CommandLine.Proofs.Tokenization

namespace CommandLine

open Text StateName

/-! ## What an argument says -/

/-- The argument says what the text says.  In a property list blanks around a value are left out,
and a name alone stands for a value. -/
inductive Argument.Says (a : Argument) : Text → Prop
  | positional {value : Text} (hname : a.name = none) (hvalue : a.value = some value) :
    Says a value
  | name {name : Text} (hname : a.name = some name) (hvalue : a.value = none) : Says a name
  | value {front raw value : Text} (hname : a.name = some (trim front))
    (hvalue : a.value = some value)
    (hraw : value = raw ∨ a.inPropertyList = true ∧ (value = trim raw ∨ value = trimStart raw)) :
    Says a (front ++ '=' :: raw)
  | set {raw : Text} (hlist : a.inPropertyList = true) (hname : a.name = some (trim raw))
    (hvalue : a.value = some Reading.setValue) : Says a raw
  | unset {raw rest : Text} (hlist : a.inPropertyList = true) (hraw : trim raw = '!' :: rest)
    (hname : a.name = some (trimStart rest)) (hvalue : a.value = some Reading.unsetValue) :
    Says a raw

/-- The argument has been read from `raw`, which stands in the text after `before`.  Only an escaped
delimiter at the end of a property is not counted where the argument ends. -/
structure Argument.ReadFrom (a : Argument) (before raw text : Text) : Prop where
  stands : before ++ raw <+: text
  start_eq : a.start = before.length
  stop_eq : a.stop = (before ++ raw).length ∨ a.stop + 1 = (before ++ raw).length

/-- The argument says what stands in the text where it has been read. -/
def Argument.StandsIn (a : Argument) (text : Text) : Prop :=
  ∃ before raw, a.ReadFrom before raw text ∧ a.Says raw

theorem Argument.StandsIn.mono {a : Argument} {text longer : Text} (h : a.StandsIn text)
    (htext : text <+: longer) : a.StandsIn longer := by
  obtain ⟨before, raw, ⟨hstands, hstart, hstop⟩, hwords⟩ := h
  exact ⟨before, raw, ⟨hstands.trans htext, hstart, hstop⟩, hwords⟩

namespace Argument.StandsIn

variable {a : Argument} {before raw front rest : Text}

theorem of_whole (hstart : a.start = before.length) (hstop : a.stop = (before ++ raw).length)
    (hwords : a.Says raw) : a.StandsIn (before ++ raw) :=
  ⟨before, raw, ⟨List.prefix_refl _, hstart, .inl hstop⟩, hwords⟩

/-- The argument ends at a location, which is the end of the text or the place before. -/
theorem of_location {location : Nat}
    (hlocation : location = (before ++ raw).length ∨ location + 1 = (before ++ raw).length)
    (hstart : a.start = before.length) (hstop : a.stop = location) (hwords : a.Says raw) :
    a.StandsIn (before ++ raw) := by
  refine ⟨before, raw, ⟨List.prefix_refl _, hstart, ?_⟩, hwords⟩
  rw [hstop]
  exact hlocation.imp (congrArg Nat.cast) (congrArg Nat.cast)

/-- A name with a separator after it ends there if it has no value. -/
theorem of_unvalued (hstart : a.start = before.length)
    (hstop : a.stop = a.start + front.length + 1) (hname : a.name = some (trim front))
    (hvalue : a.value = some []) : a.StandsIn (before ++ (front ++ '=' :: rest)) := by
  refine ⟨before, front ++ ['='], ⟨?_, hstart, .inl ?_⟩, .value hname hvalue (.inl rfl)⟩
  · rw [List.prefix_append_right_inj, List.prefix_append_right_inj]
    exact List.cons_prefix_cons.2 ⟨rfl, List.nil_prefix⟩
  · rw [hstop, hstart]
    simp only [List.length_append, List.length_singleton, Int.natCast_add]
    omega

end Argument.StandsIn

/-! ## The token that is being read -/

/-- How much of an argument has been read. -/
inductive Stage where
  /-- There is no argument. -/
  | none
  /-- A value without a name. -/
  | positional
  /-- The name. -/
  | name
  /-- The name and `=`, and maybe a part of the value. -/
  | value
deriving DecidableEq

namespace StateName

/-- An argument or a property is being read in the state. -/
def readsArgument : StateName → Bool
  | argument | property | nameValueSeparator | propertyValue | argumentValue => true
  | _ => false

/-- Only what reads arguments, or is a part of a value, stands inside of an argument. -/
theorem outside_of_mem_holds {x y : StateName} (held : x ∈ y.holds)
    (hx : (x.readsArgument || x.isPart) = false) :
    (y.readsArgument || y.isPart) = false := by
  have table : ∀ y ∈ all, ∀ x ∈ y.holds, (x.readsArgument || x.isPart) = false →
      (y.readsArgument || y.isPart) = false := by decide
  exact table y (mem_all y) x held hx

end StateName

/-- How much of an argument has been read where these states are active. -/
def stageOf : List StateName → Stage
  | [] => .none
  | x :: outer =>
    match x with
    | argument | property => .name
    | nameValueSeparator | propertyValue => .value
    | argumentValue => if outer.head? = some nameValueSeparator then .value else .positional
    | brackets | parentheses | braces | quotes | backQuotes | escape => stageOf outer
    | _ => .none

section

variable {x : StateName} {outer : List StateName}

theorem stageOf_of_outside (hx : (x.readsArgument || x.isPart) = false) :
    stageOf (x :: outer) = .none := by
  cases x <;> first | rfl | exact absurd hx (by decide)

theorem stageOf_of_isPart (hx : x.isPart = true) :
    stageOf (x :: outer) = stageOf outer := by
  cases x <;> first | rfl | exact absurd hx (by decide)

/-- Outside of arguments there is nothing but what stands outside of them. -/
theorem Nested.stageOf_of_outside {b : StateName} (h : Nested b (x :: outer))
    (hx : (x.readsArgument || x.isPart) = false) : stageOf outer = .none := by
  cases h with
  | bottom root => rfl
  | inside held rest => exact CommandLine.stageOf_of_outside (outside_of_mem_holds held hx)

theorem Nested.propertyList_not_mem {b : StateName} (h : Nested b (propertyList :: outer)) :
    propertyList ∉ outer := by
  obtain ⟨rest, rfl, haddress⟩ := h.holder_eq (y := address) rfl (by decide)
  obtain ⟨rest, rfl, hcommand⟩ := haddress.holder_eq (y := command) rfl (by decide)
  cases hcommand with
  | bottom root => decide
  | @inside _ y _ held => exact absurd held (by cases y <;> decide)

/-- The value of an argument stands in the list by itself, or it follows a name. -/
theorem Nested.argumentValue_holder {b : StateName} (h : Nested b (argumentValue :: outer)) :
    ∃ y rest, outer = y :: rest ∧ Nested b (y :: rest) ∧
      (y = argumentList ∨ y = nameValueSeparator) := by
  obtain ⟨y, rest, rfl, held, hy⟩ := h.holder rfl
  have holders : ∀ z ∈ all, argumentValue ∈ z.holds →
      z = argumentList ∨ z = nameValueSeparator := by decide
  exact ⟨y, rest, rfl, hy, holders y (mem_all y) held⟩

/-- What is read in a separator follows a name. -/
theorem Nested.stages_of_separator {b : StateName} (h : Nested b (x :: outer))
    (hx : (x == nameValueSeparator || x == propertyValue) = true) :
    stageOf outer = .name ∧ stageOf (x :: outer) = .value := by
  cases x with
  | nameValueSeparator =>
    obtain ⟨rest, rfl, -⟩ := h.holder_eq (y := argument) rfl (by decide)
    exact ⟨rfl, rfl⟩
  | propertyValue =>
    obtain ⟨rest, rfl, -⟩ := h.holder_eq (y := property) rfl (by decide)
    exact ⟨rfl, rfl⟩
  | _ => cases hx

end

/-- What the token has taken of the line, up to a stage. -/
inductive Tokens.Takes (t : Tokens) : Stage → Text → Prop
  | positional : Takes t .positional t.buffer
  | name (hname : t.name = none) : Takes t .name t.buffer
  | value {front : Text} (hname : t.name = some (trim front))
    (hseparator : t.separator = some (t.start + front.length)) :
    Takes t .value (front ++ '=' :: t.buffer)

/-- The token has taken the end of the text, from its start on. -/
def Tokens.TakesEnd (t : Tokens) (stage : Stage) (text : Text) : Prop :=
  ∃ before raw, before ++ raw = text ∧ t.start = before.length ∧ t.Takes stage raw

namespace Tokens

variable {t : Tokens} {stage : Stage} {text : Text} {d : Char}

/-- A character that is content joins what the token has taken. -/
theorem TakesEnd.append (h : t.TakesEnd stage text) :
    (t.append [d]).TakesEnd stage (text ++ [d]) := by
  obtain ⟨before, raw, rfl, hstart, htakes⟩ := h
  refine ⟨before, raw ++ [d], (List.append_assoc _ _ _).symm, hstart, ?_⟩
  cases htakes with
  | positional => exact .positional (t := t.append [d])
  | name hname => exact .name (t := t.append [d]) hname
  | value hname hseparator =>
    rw [List.append_assoc, List.cons_append]
    exact .value (t := t.append [d]) hname hseparator

/-- A token starts at the end of the text. -/
theorem TakesEnd.start (hstart : t.start = text.length) (htakes : t.Takes stage []) :
    t.TakesEnd stage text := ⟨text, [], List.append_nil _, hstart, htakes⟩

/-- The name ends, and the separator is taken. -/
theorem TakesEnd.separate (h : t.TakesEnd .name text) :
    TakesEnd { t with buffer := [], name := some (trim t.buffer), separator := some text.length }
      .value (text ++ ['=']) := by
  obtain ⟨before, raw, rfl, hstart, htakes⟩ := h
  cases htakes with
  | name hname =>
    refine ⟨before, t.buffer ++ ['='], (List.append_assoc _ _ _).symm, hstart, ?_⟩
    refine .value rfl ?_
    show some _ = some (t.start + _)
    rw [hstart, List.length_append, Int.natCast_add]

/-- Where the value started makes no difference to what has been taken. -/
theorem TakesEnd.startValue (h : t.TakesEnd .value text) (location : Int) :
    TakesEnd { t with valueStart := some location } .value text := by
  obtain ⟨before, raw, rfl, hstart, htakes⟩ := h
  cases htakes with
  | value hname hseparator => exact ⟨before, _, rfl, hstart, .value hname hseparator⟩

end Tokens

/-! ## What a command gains from a token -/

namespace Command

variable (c : Command)

@[simp] theorem inPropertyList_withSeparator (separator : Separator) (index : Int) :
    (c.withSeparator separator index).inPropertyList = c.inPropertyList := rfl

@[simp] theorem inPropertyList_withPart (index : Int) :
    (c.withPart index).inPropertyList = c.inPropertyList := rfl

@[simp] theorem inPropertyList_addArgument (name value : Option Text) (start stop : Int) :
    (c.addArgument name value start stop).inPropertyList = c.inPropertyList := rfl

@[simp] theorem inPropertyList_receiveNameValueSeparator (index : Int) :
    (c.receiveNameValueSeparator index).inPropertyList = c.inPropertyList := rfl

@[simp] theorem inPropertyList_receiveArgument (name : Option Text) (value : Text)
    (start stop : Int) :
    (c.receiveArgument name value start stop).inPropertyList = c.inPropertyList := by
  unfold receiveArgument
  dsimp only
  split <;> rfl

/-- The argument is what a property stands for whose token ends at a location. -/
inductive IsProperty (c : Command) (t : Tokens) (location : Int) : Argument → Prop
  | set (hname : t.name = none) :
    IsProperty c t location
      (c.nextArgument (some (trim t.buffer)) (some Reading.setValue) t.start location)
  | unset {rest : Text} (hname : t.name = none) (hraw : trim t.buffer = '!' :: rest) :
    IsProperty c t location
      (c.nextArgument (some (trimStart rest)) (some Reading.unsetValue) t.start location)
  | value {name value : Text} (hname : t.name = some name)
    (hvalue : value = trim t.buffer ∨ value = trimStart t.buffer) :
    IsProperty c t location (c.nextArgument (some name) (some value) t.start location)
  | unvalued {name : Text} (hname : t.name = some name) :
    IsProperty c t location
      (c.nextArgument (some name) (some []) t.start (t.separator.getD t.start + 1))

/-- The other command has at most one argument more, of which `P` holds. -/
def Gains (c : Command) (P : Argument → Prop) (c' : Command) : Prop :=
  c'.inPropertyList = c.inPropertyList ∧
    (c'.arguments = c.arguments ∨ ∃ a, c'.arguments = c.arguments ++ [a] ∧ P a)

theorem Gains.imp {c c' : Command} {P Q : Argument → Prop} (h : c.Gains P c')
    (hPQ : ∀ a, P a → Q a) : c.Gains Q c' :=
  ⟨h.1, h.2.imp_right fun ⟨a, ha, hP⟩ => ⟨a, ha, hPQ a hP⟩⟩

end Command

/-- A part that goes through has been at work first. -/
theorem Reading.work_bind {α β : Type} {p : Reading α} {w w' : Reader.Work} {a : α}
    (hp : p w = .ok a w') (k : α → Reading β) : work (p >>= k) w = work (k a) w' := by
  rw [work, bind_apply, hp]
  rfl

namespace Reader

variable (ctx : Context StateName) (r : Reader) (c : Command)

/-- The command after the reports of a reader at work. -/
def commandAfter (p : Reading Unit) (w : Work) : Command :=
  (deliver Command.handler (Reading.work p w).reports c).1

theorem told_eq (signal : Signal StateName) :
    (told ctx r c signal).2 = commandAfter c (Reading.signal ctx signal) { reader := r } := by
  rw [told, gathered_listener, work_eq]
  rfl

theorem gains_argument :
    c.Gains (· = c.argumentOf r.tokens ctx.location) (told ctx r c (.leaving argument)).2 := by
  refine ⟨?_, .inr ⟨_, (told_argument ctx r c).1, rfl⟩⟩
  unfold told listener hear Reading.signal Reading.leaving Reading.argumentDone
    Reading.argumentGap Reading.nameWithoutValue
  simp only [Reading.bind_apply, Reading.tokens_apply]
  cases r.tokens.name <;> cases r.tokens.valueStart <;> cases ctx.character?.any isGap <;>
    simp [Reading.bind_apply, Reading.report_apply, Reading.mapTokens_apply, Reading.take_apply,
      Reader.deliver, Command.handler, Command.receive, Command.accepting]

theorem gains_flag (name value : Text) (start : Int) (t : Tokens) :
    c.Gains (· = c.nextArgument (some name) (some value) start ctx.location)
      (commandAfter c (do
          Reading.reportFlag ctx start name value
          Reading.reportOn ctx ',' (.argumentSeparator ctx.location)
          Reading.mapTokens Tokens.clear) { reader := { r with tokens := t } }) := by
  unfold commandAfter Reading.work Reading.reportFlag Reading.reportOn
  cases hempty : name.isEmpty <;> by_cases hcomma : ctx.character? = some ','
  all_goals simp [hcomma, Reading.bind_apply, Reading.report_apply, Reading.pure_apply,
    Reading.mapTokens_apply, Reader.deliver, Command.handler, Command.receive, Command.accepting,
    Command.Gains]

theorem gains_value {name value : Text} (t : Tokens) :
    c.Gains (fun a => a = c.nextArgument (some name) (some value) t.start ctx.location ∨
        a = c.nextArgument (some name) (some []) t.start (t.separator.getD t.start + 1))
      (commandAfter c (do
          if value.isEmpty then Reading.nameWithoutValue t.start name t.separator
          else Reading.report (.argument (some name) value t.start ctx.location)
          Reading.reportOn ctx ',' (.argumentSeparator ctx.location)
          Reading.mapTokens Tokens.clear)
        { reader := { r with tokens := { t with buffer := [] } } }) := by
  unfold commandAfter Reading.work Reading.nameWithoutValue Reading.reportOn
  cases hempty : value.isEmpty <;> by_cases hcomma : ctx.character? = some ','
  all_goals simp [hcomma, Reading.bind_apply, Reading.report_apply, Reading.mapTokens_apply,
    Reader.deliver, Command.handler, Command.receive, Command.accepting, Command.Gains]

/-- The end of a property is reported as that property, unless its name is missing. -/
theorem gains_property :
    c.Gains (c.IsProperty r.tokens ctx.location) (told ctx r c (.leaving property)).2 := by
  rw [told_eq]
  show c.Gains _ (commandAfter c (Reading.propertyDone ctx) { reader := r })
  unfold commandAfter Reading.propertyDone
  rw [Reading.work_bind (Reading.tokens_apply _)]
  dsimp only
  cases hname : r.tokens.name with
  | none =>
    dsimp only
    rw [Reading.work_bind (Reading.take_apply _)]
    dsimp only
    split
    · next rest hraw =>
      by_cases hdouble : (trimStart rest).head? = some '!'
      · rw [if_pos hdouble]
        exact ⟨rfl, .inl rfl⟩
      · rw [if_neg hdouble]
        refine (gains_flag ctx r c (trimStart rest) Reading.unsetValue r.tokens.start _).imp ?_
        rintro a rfl
        exact .unset hname hraw
    · refine (gains_flag ctx r c (trim r.tokens.buffer) Reading.setValue r.tokens.start _).imp ?_
      rintro a rfl
      exact .set hname
  | some name =>
    cases name with
    | nil => exact ⟨rfl, .inl rfl⟩
    | cons d name =>
      dsimp only
      rw [Reading.work_bind (Reading.takeValue_eq ctx _)]
      refine (gains_value ctx r c r.tokens).imp ?_
      rintro a (rfl | rfl)
      · refine .value hname ?_
        split
        · exact .inr rfl
        · exact .inl rfl
      · exact .unvalued hname

/-- The end of a value without a name is reported as an argument. -/
theorem gains_positional (hpositional : Reading.isPositional ctx = true) :
    c.Gains (· = c.nextArgument none (some r.tokens.buffer) r.tokens.start ctx.location)
      (told ctx r c (.leaving argumentValue)).2 := by
  unfold told listener hear Reading.signal Reading.leaving Reading.argumentValueDone
    Reading.argumentGap
  simp only [hpositional]
  cases ctx.character?.any isGap <;>
    simp [Reading.bind_apply, Reading.report_apply, Reading.mapTokens_apply, Reading.take_apply,
      Reading.tokens_apply, Reader.deliver, Command.handler, Command.receive, Command.accepting,
      Command.Gains]

/-- A value is a new token, unless it belongs to the token of a name. -/
theorem told_entered_argumentValue {positional : Bool}
    (hpositional : Reading.isPositional ctx = positional) :
    told ctx r c (.entered argumentValue) =
      ({ r with tokens := { bif positional then Tokens.startAt ctx.location else r.tokens with
          valueStart := some (ctx.location : Int) } }, c) := by
  have hrun : Reading.signal ctx (.entered argumentValue) { reader := r } = .ok ()
      { reader := { r with tokens := { bif positional then Tokens.startAt ctx.location
          else r.tokens with valueStart := some (ctx.location : Int) } } } := by
    rw [Reading.signal, Reading.entered, hpositional]
    cases positional <;> rfl
  exact told_of_run r c hrun rfl

/-- The end of a value with a name is not reported. -/
theorem told_namedValue (hpositional : Reading.isPositional ctx = false) :
    told ctx r c (.leaving argumentValue) = (r, c) := by
  have hrun : Reading.signal ctx (.leaving argumentValue) { reader := r } =
      .ok () { reader := r } := by
    rw [Reading.signal, Reading.leaving, Reading.argumentValueDone, hpositional]
    rfl
  exact told_of_run r c hrun rfl

end Reader

/-! ## What leaves the arguments alone -/

/-- The event is about neither an argument nor the property list. -/
def Event.isAside : Event → Bool
  | .argumentName _ _ | .nameValueSeparator _ | .argument _ _ _ _ | .propertyListStart _
  | .propertyListEnd _ => false
  | _ => true

/-- Whatever the reader reports on the signal is about neither an argument nor the property list. -/
def Signal.isAside : Signal StateName → Bool
  | .leaving argument | .leaving argumentValue | .leaving property | .entered propertyList
  | .leaving propertyList => false
  | _ => true

/-- The other command has the same arguments, and its property list is open or closed alike. -/
def Command.Spares (c c' : Command) : Prop :=
  c'.inPropertyList = c.inPropertyList ∧ c'.arguments = c.arguments

theorem Event.isAside_of_part {event : Event} (h : event.part ≠ .rest) : event.isAside = true := by
  cases event <;> first | rfl | exact absurd rfl h

theorem Command.spares_receive (c : Command) {event : Event} (h : event.isAside = true) :
    c.Spares (c.receive event).1 := by
  cases event with
  | parentNode index => unfold receive receiveParent; dsimp only; split <;> exact ⟨rfl, rfl⟩
  | nodeType index type =>
    unfold receive receiveType
    dsimp only
    split
    · exact ⟨rfl, rfl⟩
    · split <;> exact ⟨rfl, rfl⟩
  | nodeName index name =>
    unfold receive receiveName
    dsimp only
    split
    · exact ⟨rfl, rfl⟩
    · split <;> exact ⟨rfl, rfl⟩
  | nodeTypeOrName index text =>
    unfold receive receiveTypeOrName
    dsimp only
    split <;> exact ⟨rfl, rfl⟩
  | operationSeparator index =>
    unfold receive receiveOperationSeparator
    dsimp only
    split <;> exact ⟨rfl, rfl⟩
  | _ => first | exact ⟨rfl, rfl⟩ | cases h

namespace Reader

variable (ctx : Context StateName) (r : Reader) (c : Command)

theorem spares_of_added {signal : Signal StateName}
    (h : ∀ event ∈ added signal ctx r, event.isAside = true) :
    c.Spares (told ctx r c signal).2 := by
  rw [told, gathered_listener]
  refine deliver_keeps (P := c.Spares) (E := fun event => event.isAside = true)
    (fun event d hevent hd => ?_) (fun report hreport => ?_) ⟨rfl, rfl⟩
  · rw [Command.handler_fst]
    have hkept := d.spares_receive hevent
    exact ⟨hkept.1.trans hd.1, hkept.2.trans hd.2⟩
  · exact h _ (List.mem_map_of_mem hreport)

theorem spares_header : c.Spares (told ctx r c (.leaving header)).2 := by
  rw [told_eq]
  show c.Spares (commandAfter c (Reading.headerDone ctx) { reader := r })
  -- whatever the name and the value are, only headers are reported
  have reporting (name value : Text) (start : Int) (t : Tokens) :
      c.Spares (commandAfter c (do
        if name.isEmpty then Reading.fail (.headerNameMissing start)
        if value.isEmpty then Reading.report (.headerName start name)
        else Reading.report (.header name value start)
        Reading.reportOn ctx ';' (.headerSeparator ctx.location)
        Reading.mapTokens Tokens.clear) { reader := { r with tokens := t } }) := by
    unfold commandAfter Reading.work Reading.reportOn
    cases name.isEmpty <;> cases value.isEmpty <;> by_cases hnext : ctx.character? = some ';'
    all_goals simp [hnext, Reading.bind_apply, Reading.report_apply, Reading.mapTokens_apply,
      Reading.fail_apply, deliver, Command.handler, Command.receive, Command.accepting]
    all_goals exact ⟨rfl, rfl⟩
  unfold commandAfter Reading.headerDone
  rw [Reading.work_bind (Reading.tokens_apply _)]
  dsimp only
  cases r.tokens.name with
  | none => exact reporting (trim r.tokens.buffer) [] _ _
  | some name => exact reporting name _ _ _

theorem spares_entered_argumentValue : c.Spares (told ctx r c (.entered argumentValue)).2 := by
  rw [told_eq]
  unfold commandAfter Reading.work Reading.signal Reading.entered
  cases Reading.isPositional ctx <;> exact ⟨rfl, rfl⟩

theorem spares_entered_argumentList : c.Spares (told ctx r c (.entered argumentList)).2 := by
  rw [told_eq]
  show c.Spares (commandAfter c (if 1 < ctx.stack.depth then
    Reading.report (.argumentSeparator ctx.location) else pure ()) { reader := r })
  split <;> exact ⟨rfl, rfl⟩

theorem spares_leaving_headerList : c.Spares (told ctx r c (.leaving headerList)).2 := by
  rw [told_eq]
  show c.Spares (commandAfter c (if !ctx.atEnd then
    Reading.report (.headerListEnd ctx.location) else pure ()) { reader := r })
  split <;> exact ⟨rfl, rfl⟩

/-- Only what ends an argument and what opens or closes the property list matters to arguments. -/
theorem spares_told {signal : Signal StateName} (h : signal.isAside = true) :
    c.Spares (told ctx r c signal).2 := by
  by_cases hpart : Reading.partOf signal = .rest
  · cases signal with
    | entered x =>
      cases x with
      | argumentList => exact spares_entered_argumentList ctx r c
      | argumentValue => exact spares_entered_argumentValue ctx r c
      | _ => first | exact ⟨rfl, rfl⟩ | exact absurd h (by decide) | exact absurd hpart (by decide)
    | leaving x =>
      cases x with
      | header => exact spares_header ctx r c
      | headerList => exact spares_leaving_headerList ctx r c
      | _ => first | exact ⟨rfl, rfl⟩ | exact absurd h (by decide) | exact absurd hpart (by decide)
    | _ => exact ⟨rfl, rfl⟩
  · refine spares_of_added ctx r c fun event hevent => Event.isAside_of_part ?_
    rw [part_of_mem_added hevent]
    exact hpart

/-- The parts of a text are all one to the reader. -/
theorem told_of_isPart {x : StateName} (hx : x.isPart = true) :
    told ctx r c (.entered x) = (r, c) ∧ told ctx r c (.leaving x) = (r, c) := by
  cases x <;> first | exact ⟨rfl, rfl⟩ | exact absurd hx (by decide)

/-- The property list is read until it is closed. -/
theorem told_leaving_propertyList :
    (told ctx r c (.leaving propertyList)).2.arguments = c.arguments := by
  rw [told_eq]
  show (commandAfter c (if !ctx.atEnd then
    Reading.report (.propertyListEnd ctx.location) else pure ()) { reader := r }).arguments = _
  split <;> rfl

end Reader

/-! ## What a reader and its command hold -/

/-- What a reader and its command have gathered of the text that has been read: arguments that stand
in it, and where an argument is being read its token, which has come to a stage.  The stage is that
of the active states, or a later one where they are about to be left. -/
structure Held (read : Text) (stage : Stage) (active : List StateName) (g : Reader × Command) :
    Prop where
  standing : ∀ a ∈ g.2.arguments, a.StandsIn read
  listed : propertyList ∈ active → g.2.inPropertyList = true
  token : stageOf active = .none ∨
    (stageOf active = stage ∨ stageOf active = .name ∧ stage = .value) ∧
      g.1.tokens.TakesEnd stage read

namespace Held

variable {b x : StateName} {read : Text} {stage : Stage} {active outer : List StateName}
  {ctx : Context StateName} {r : Reader} {c : Command} {d : Char}

/-- Where no argument is being read the text makes no difference. -/
theorem grow (h : Held read stage active (r, c)) (hactive : stageOf active = .none)
    {longer : Text} (hlonger : read <+: longer) (later : Stage) :
    Held longer later active (r, c) where
  standing a ha := (h.standing a ha).mono hlonger
  listed := h.listed
  token := .inl hactive

/-- Where no argument is being read it makes no difference how much of one has been. -/
theorem at_none (h : Held read stage active (r, c)) (hactive : stageOf active = .none)
    {later : Stage} : Held read later active (r, c) := h.grow hactive (List.prefix_refl _) later

/-- A command that spares the arguments holds what it held. -/
theorem spares (h : Held read stage active (r, c)) {inner : List StateName} {r' : Reader}
    {c' : Command} (hspares : c.Spares c') (hlist : propertyList ∈ inner → propertyList ∈ active)
    (hinner : stageOf inner = .none) : Held read stage inner (r', c') where
  standing a ha := h.standing a (hspares.2 ▸ ha)
  listed hmem := hspares.1.trans (h.listed (hlist hmem))
  token := .inl hinner

/-- A command that gains an argument which stands in the text. -/
theorem gains (h : Held read stage active (r, c)) {inner : List StateName} {r' : Reader}
    {c' : Command} {P : Argument → Prop} (hgains : c.Gains P c')
    (hP : ∀ a, P a → a.StandsIn read) (hlist : propertyList ∈ inner → propertyList ∈ active)
    (hinner : stageOf inner = .none) : Held read stage inner (r', c') where
  standing a ha := by
    rcases hgains.2 with hsame | ⟨b, hmore, hb⟩
    · exact h.standing a (hsame ▸ ha)
    · have ha' : a ∈ c.arguments ++ [b] := hmore ▸ ha
      rcases List.mem_append.1 ha' with ha' | ha'
      · exact h.standing a ha'
      · exact List.mem_singleton.1 ha' ▸ hP b hb
  listed hmem := hgains.1.trans (h.listed (hlist hmem))
  token := .inl hinner

/-- The end of what has been read is the token, which is a name or follows one. -/
theorem takesEnd_of_name (h : Held read stage active (r, c)) (hactive : stageOf active = .name) :
    r.tokens.TakesEnd stage read ∧ stage ≠ .positional := by
  obtain ⟨hstage, htakes⟩ := h.token.resolve_left (by rw [hactive]; nofun)
  refine ⟨htakes, ?_⟩
  rintro rfl
  rcases hstage with hstage | ⟨-, hstage⟩
  · cases hactive.symm.trans hstage
  · cases hstage

/-- A character is content. -/
theorem content (h : Held read stage active (r, c)) (hd : ctx.character? = some d) :
    Held (read ++ [d]) stage active (Reader.told ctx r c .content) := by
  have hcharacter : ctx.character = [d] := congrArg Option.toList hd
  show Held _ _ _ ({ r with tokens := r.tokens.append ctx.character }, c)
  rw [hcharacter]
  exact ⟨fun a ha => (h.standing a ha).mono (List.prefix_append _ _), h.listed,
    h.token.imp_right fun htoken => ⟨htoken.1, htoken.2.append⟩⟩

/-! ### States that are entered -/

/-- A name starts. -/
theorem enters_name (h : Held read (stageOf outer) outer (r, c))
    (hlocation : read.length = ctx.location) (hx : x = argument ∨ x = property) :
    Held read (stageOf (x :: outer)) (x :: outer) (Reader.told ctx r c (.entered x)) := by
  have hstart : (Tokens.startAt ctx.location).start = read.length :=
    congrArg Nat.cast hlocation.symm
  have htakes : (Tokens.startAt ctx.location).TakesEnd .name read :=
    .start hstart (.name (t := Tokens.startAt ctx.location) rfl)
  have hlist (hmem : propertyList ∈ x :: outer) : propertyList ∈ outer :=
    (List.mem_cons.1 hmem).resolve_left (by rcases hx with rfl | rfl <;> nofun)
  rcases hx with rfl | rfl
  · exact ⟨h.standing, fun hmem => h.listed (hlist hmem), .inr ⟨.inl rfl, htakes⟩⟩
  · exact ⟨h.standing, fun hmem => h.listed (hlist hmem), .inr ⟨.inl rfl, htakes⟩⟩

/-- A value starts, or it goes on after a separator. -/
theorem enters_argumentValue (h : Held read (stageOf outer) outer (r, c))
    (hnested : Nested b (argumentValue :: outer)) (hactive : ctx.active = argumentValue :: outer)
    (hlocation : read.length = ctx.location) :
    Held read (stageOf (argumentValue :: outer)) (argumentValue :: outer)
      (Reader.told ctx r c (.entered argumentValue)) := by
  have hlist (hmem : propertyList ∈ argumentValue :: outer) : propertyList ∈ outer :=
    (List.mem_cons.1 hmem).resolve_left nofun
  obtain ⟨y, rest, rfl, -, rfl | rfl⟩ := hnested.argumentValue_holder
  · rw [Reader.told_entered_argumentValue ctx r c (Reading.isPositional_of_active hactive)]
    refine ⟨h.standing, fun hmem => h.listed (hlist hmem), .inr ⟨.inl rfl, ?_⟩⟩
    exact .start (congrArg Nat.cast hlocation.symm) (.positional
      (t := { Tokens.startAt ctx.location with valueStart := some (ctx.location : Int) }))
  · rw [Reader.told_entered_argumentValue ctx r c (Reading.isPositional_of_active hactive)]
    refine ⟨h.standing, fun hmem => h.listed (hlist hmem), .inr ⟨.inl rfl, ?_⟩⟩
    exact (h.token.resolve_left nofun).2.startValue _

/-- The state is entered, and no more of the text has been read. -/
theorem enters (h : Held read (stageOf outer) outer (r, c)) (hnested : Nested b (x :: outer))
    (hactive : ctx.active = x :: outer) (hlocation : read.length = ctx.location)
    (hx : (x == nameValueSeparator || x == propertyValue) = false) :
    Held read (stageOf (x :: outer)) (x :: outer) (Reader.told ctx r c (.entered x)) := by
  cases htext : x.isPart with
  | true =>
    rw [(Reader.told_of_isPart ctx r c htext).1, stageOf_of_isPart htext]
    refine ⟨h.standing, fun hmem => h.listed ?_, ?_⟩
    · exact (List.mem_cons.1 hmem).resolve_left (by rintro rfl; cases htext)
    · rw [stageOf_of_isPart htext]
      exact h.token
  | false =>
    cases hreads : x.readsArgument with
    | true =>
      cases x with
      | argument => exact h.enters_name hlocation (.inl rfl)
      | property => exact h.enters_name hlocation (.inr rfl)
      | argumentValue => exact h.enters_argumentValue hnested hactive hlocation
      | nameValueSeparator | propertyValue => cases hx
      | _ => cases hreads
    | false =>
      have hnone : stageOf (x :: outer) = .none :=
        CommandLine.stageOf_of_outside (by rw [hreads, htext]; rfl)
      by_cases hlist : x = propertyList
      · subst hlist
        exact ⟨h.standing, fun _ => rfl, .inl hnone⟩
      · refine (h.spares (Reader.spares_told ctx r c ?_) (fun hmem => ?_) hnone).at_none hnone
        · cases x <;> first | rfl | exact absurd rfl hlist
        · exact (List.mem_cons.1 hmem).resolve_left (Ne.symm hlist)

/-- On `=` the name ends and the separator is taken. -/
theorem separates (h : Held read (stageOf outer) outer (r, c)) (hnested : Nested b (x :: outer))
    (hlocation : read.length = ctx.location)
    (hx : (x == nameValueSeparator || x == propertyValue) = true) :
    Held (read ++ ['=']) (stageOf (x :: outer)) (x :: outer)
      (Reader.told ctx r c (.entered x)) := by
  obtain ⟨hname, hvalue⟩ := hnested.stages_of_separator hx
  have htold : Reader.told ctx r c (.entered x) = ({ r with tokens := { r.tokens with
      buffer := [], name := some (trim r.tokens.buffer), separator := some read.length } }, c) := by
    rw [hlocation]
    cases x <;> first | rfl | cases hx
  rw [hname] at h
  rw [htold, hvalue]
  have htakes := (h.takesEnd_of_name hname).1
  refine ⟨fun a ha => (h.standing a ha).mono (List.prefix_append _ _), fun hmem => h.listed ?_,
    .inr ⟨.inl hvalue, htakes.separate⟩⟩
  exact (List.mem_cons.1 hmem).resolve_left (by rintro rfl; cases hx)

/-! ### States that are left -/

/-- The end of an argument with a name. -/
theorem stands_argumentOf (htakes : r.tokens.TakesEnd stage read) (hstage : stage ≠ .positional)
    (hlocation : ctx.location = read.length ∨ ctx.location + 1 = read.length) :
    (c.argumentOf r.tokens ctx.location).StandsIn read := by
  obtain ⟨before, raw, rfl, hstart, htakes⟩ := htakes
  unfold Command.argumentOf
  cases htakes with
  | positional => exact absurd rfl hstage
  | name hname =>
    rw [hname]
    refine .of_whole hstart ?_ (.name rfl rfl)
    show r.tokens.start + _ = _
    rw [hstart, List.length_append, Int.natCast_add]
  | value hname hseparator =>
    rw [hname]
    cases r.tokens.valueStart with
    | some start => exact .of_location hlocation hstart rfl (.value rfl rfl (.inl rfl))
    | none =>
      refine .of_unvalued hstart ?_ rfl rfl
      show r.tokens.separator.getD _ + 1 = _
      rw [hseparator]
      rfl

/-- The end of a property. -/
theorem stands_property {a : Argument} (h : c.IsProperty r.tokens ctx.location a)
    (hlist : c.inPropertyList = true) (htakes : r.tokens.TakesEnd stage read)
    (hstage : stage ≠ .positional)
    (hlocation : ctx.location = read.length ∨ ctx.location + 1 = read.length) :
    a.StandsIn read := by
  obtain ⟨before, raw, rfl, hstart, htakes⟩ := htakes
  cases htakes with
  | positional => exact absurd rfl hstage
  | name hname =>
    cases h with
    | set => exact .of_location hlocation hstart rfl (.set hlist rfl rfl)
    | unset _ hraw => exact .of_location hlocation hstart rfl (.unset hlist hraw rfl rfl)
    | value hsome => cases hname.symm.trans hsome
    | unvalued hsome => cases hname.symm.trans hsome
  | value hname hseparator =>
    cases h with
    | set hnone => cases hname.symm.trans hnone
    | unset hnone => cases hname.symm.trans hnone
    | value hsome hvalue =>
      cases hname.symm.trans hsome
      exact .of_location hlocation hstart rfl (.value rfl rfl (.inr ⟨hlist, hvalue⟩))
    | unvalued hsome =>
      cases hname.symm.trans hsome
      refine .of_unvalued hstart ?_ rfl rfl
      show r.tokens.separator.getD _ + 1 = _
      rw [hseparator]
      rfl

/-- An argument is complete. -/
theorem leaves_argument (h : Held read stage (argument :: outer) (r, c))
    (hnested : Nested b (argument :: outer))
    (hlocation : ctx.location = read.length ∨ ctx.location + 1 = read.length) :
    Held read stage outer (Reader.told ctx r c (.leaving argument)) := by
  obtain ⟨rest, rfl, -⟩ := hnested.holder_eq (y := argumentList) rfl (by decide)
  obtain ⟨htakes, hstage⟩ := h.takesEnd_of_name rfl
  refine h.gains (Reader.gains_argument ctx r c) ?_ (List.mem_cons_of_mem _) rfl
  rintro a rfl
  exact stands_argumentOf htakes hstage hlocation

/-- A property is complete. -/
theorem leaves_property (h : Held read stage (property :: outer) (r, c))
    (hnested : Nested b (property :: outer))
    (hlocation : ctx.location = read.length ∨ ctx.location + 1 = read.length) :
    Held read stage outer (Reader.told ctx r c (.leaving property)) := by
  obtain ⟨rest, rfl, -⟩ := hnested.holder_eq (y := propertyList) rfl (by decide)
  obtain ⟨htakes, hstage⟩ := h.takesEnd_of_name rfl
  have hlist := h.listed (List.mem_cons_of_mem _ List.mem_cons_self)
  refine h.gains (Reader.gains_property ctx r c) (fun a ha => ?_) (List.mem_cons_of_mem _) rfl
  exact stands_property ha hlist htakes hstage hlocation

/-- A separator is left with the value behind it. -/
theorem leaves_separator (h : Held read stage (x :: outer) (r, c)) (hnested : Nested b (x :: outer))
    (hx : (x == nameValueSeparator || x == propertyValue) = true) :
    Held read stage outer (Reader.told ctx r c (.leaving x)) := by
  obtain ⟨hname, hvalue⟩ := hnested.stages_of_separator hx
  have htold : Reader.told ctx r c (.leaving x) = (r, c) := by
    cases x <;> first | rfl | cases hx
  rw [htold]
  obtain ⟨hstage, htakes⟩ := h.token.resolve_left (by rw [hvalue]; nofun)
  refine ⟨h.standing, fun hmem => h.listed (List.mem_cons_of_mem _ hmem),
    .inr ⟨.inr ⟨hname, ?_⟩, htakes⟩⟩
  rcases hstage with hstage | ⟨hstage, -⟩
  · exact hstage.symm.trans hvalue
  · cases hvalue.symm.trans hstage

/-- A value is complete; if it follows a name its argument is not. -/
theorem leaves_argumentValue (h : Held read stage (argumentValue :: outer) (r, c))
    (hnested : Nested b (argumentValue :: outer)) (hactive : ctx.active = argumentValue :: outer)
    (hlocation : ctx.location = read.length ∨ ctx.location + 1 = read.length) :
    Held read stage outer (Reader.told ctx r c (.leaving argumentValue)) := by
  obtain ⟨y, rest, rfl, -, rfl | rfl⟩ := hnested.argumentValue_holder
  · obtain ⟨hstage, htakes⟩ := h.token.resolve_left nofun
    refine h.gains (Reader.gains_positional ctx r c (Reading.isPositional_of_active hactive)) ?_
      (List.mem_cons_of_mem _) rfl
    rintro a rfl
    obtain rfl : Stage.positional = stage := hstage.resolve_right nofun
    obtain ⟨before, raw, rfl, hstart, htakes⟩ := htakes
    cases htakes with
    | positional => exact .of_location hlocation hstart rfl (.positional rfl rfl)
  · rw [Reader.told_namedValue ctx r c (Reading.isPositional_of_active hactive)]
    exact ⟨h.standing, fun hmem => h.listed (List.mem_cons_of_mem _ hmem),
      .inr (h.token.resolve_left nofun)⟩

/-- The innermost state is left. -/
theorem leaves (h : Held read stage (x :: outer) (r, c)) (hnested : Nested b (x :: outer))
    (hactive : ctx.active = x :: outer)
    (hlocation : ctx.location = read.length ∨ ctx.location + 1 = read.length) :
    Held read stage outer (Reader.told ctx r c (.leaving x)) := by
  have hlist (hmem : propertyList ∈ outer) : propertyList ∈ x :: outer :=
    List.mem_cons_of_mem _ hmem
  cases htext : x.isPart with
  | true =>
    rw [(Reader.told_of_isPart ctx r c htext).2]
    exact ⟨h.standing, fun hmem => h.listed (hlist hmem), stageOf_of_isPart htext ▸ h.token⟩
  | false =>
    cases hreads : x.readsArgument with
    | true =>
      cases x with
      | argument => exact h.leaves_argument hnested hlocation
      | property => exact h.leaves_property hnested hlocation
      | nameValueSeparator | propertyValue => exact h.leaves_separator hnested rfl
      | argumentValue => exact h.leaves_argumentValue hnested hactive hlocation
      | _ => cases hreads
    | false =>
      have hnone := hnested.stageOf_of_outside (by rw [hreads, htext]; rfl)
      by_cases hend : x = propertyList
      · subst hend
        refine ⟨fun a ha => h.standing a ?_, fun hmem => absurd hmem hnested.propertyList_not_mem,
          .inl hnone⟩
        rwa [← Reader.told_leaving_propertyList ctx r c]
      · refine h.spares (Reader.spares_told ctx r c ?_) hlist hnone
        cases x <;> first | rfl | exact absurd rfl hend | cases hreads

end Held
end CommandLine
