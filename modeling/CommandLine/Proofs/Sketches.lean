/-
# `CommandLine.Proofs.Sketches` — a command without its places

What a command line says does not depend on where its parts stand.  A *sketch* keeps of a reader
and of the command that it has gathered what the line says: the token that is being read, the
nodes, the operation, names and values of arguments and headers, the output target.  It leaves out
offsets, the last separator and all that serves completion.

`Sketch.react` says what the signals of a strict run without substitution do to a sketch.  It is
what the reader and the command do (`Sketch.sketches`), so that the sketch of a command can be
computed along the line (`Command.sketch_read`).
-/
import CommandLine.Command.Printer
import CommandLine.Proofs.Scenes

namespace CommandLine

open Text

/-- What an argument says. -/
structure Argument.Said where
  /-- The name. -/
  name : Option Text
  /-- The value. -/
  value : Option Text
  /-- The argument is a property in the list of an operation. -/
  inPropertyList : Bool := false
deriving DecidableEq

/-- What an argument says, wherever it stands. -/
def Argument.said (a : Argument) : Argument.Said := ⟨a.name, a.value, a.inPropertyList⟩

/-- What a reader and its command know about what the line says. -/
structure Sketch where
  /-- The characters of the token so far. -/
  buffer : Text := []
  /-- The name before the separator of name and value. -/
  name : Option Text := none
  /-- The value of the token has started. -/
  hasValue : Bool := false
  /-- Where the address started. -/
  addressStart : Option Nat := none
  /-- A node type has been read and its name is to follow. -/
  expectsName : Bool := false
  /-- The format that commands are said to have. -/
  spokenFormat : Format := {}
  /-- The format of the line, once it has been announced. -/
  format : Option Format := none
  /-- The address. -/
  address : List Node := []
  /-- The name of the operation or of the command. -/
  operation : Option Text := none
  /-- What the arguments say. -/
  arguments : List Argument.Said := []
  /-- The line has an address or an operation. -/
  isOperation : Bool := false
  /-- A property list has been opened. -/
  hasPropertyList : Bool := false
  /-- A property list is open. -/
  inPropertyList : Bool := false
  /-- The headers with a value. -/
  headers : List (Text × Text) := []
  /-- The output target. -/
  outputTarget : Option Text := none
deriving DecidableEq

namespace Sketch

/-- The sketch of a reader and its command. -/
def of (gathered : Reader × Command) : Sketch where
  buffer := gathered.1.tokens.buffer
  name := gathered.1.tokens.name
  hasValue := gathered.1.tokens.valueStart.isSome
  addressStart := gathered.1.addressStart
  expectsName := gathered.1.expectsName
  spokenFormat := gathered.1.format
  format := gathered.2.format
  address := gathered.2.address
  operation := gathered.2.operation
  arguments := gathered.2.arguments.map Argument.said
  isOperation := gathered.2.isOperation
  hasPropertyList := gathered.2.hasPropertyList
  inPropertyList := gathered.2.inPropertyList
  headers := gathered.2.headers
  outputTarget := gathered.2.outputTarget

/-! ## Parts of a line -/

/-- The sketch with further characters of the token. -/
def append (k : Sketch) (text : Text) : Sketch := { k with buffer := k.buffer ++ text }

@[simp] theorem append_nil (k : Sketch) : k.append [] = k := by
  rw [append, List.append_nil]

@[simp] theorem append_append (k : Sketch) (text more : Text) :
    (k.append text).append more = k.append (text ++ more) := by
  rw [append, append, append, List.append_assoc]

/-- The sketch with a new token. -/
def fresh (k : Sketch) : Sketch := { k with buffer := [], name := none, hasValue := false }

/-- The sketch with the token so far as a name. -/
def named (k : Sketch) : Sketch := { k with buffer := [], name := some (trim k.buffer) }

/-- The sketch on its way to an operation. -/
def towardsOperation (k : Sketch) : Sketch := { k with isOperation := true }

/-- The address ends on a type whose name is missing. -/
def endsOnType (address : List Node) : Bool := ({ address := address } : Command).endsOnType

/-- The sketch with a further node. -/
def addNode (k : Sketch) (type : Text) : Sketch :=
  { k with address := k.address ++ [{ type := type }] }

/-- The sketch with the name of its last node. -/
def nameNode (k : Sketch) (name : Text) : Sketch :=
  { k with address := k.address.modify (k.address.length - 1) fun n => { n with name := some name } }

/-- The sketch with a further argument. -/
def addArgument (k : Sketch) (name value : Option Text) : Sketch :=
  { k with arguments := k.arguments ++ [⟨name, value, k.inPropertyList⟩] }

/-- A node is complete. -/
def nodeDone (p : Spot) (k : Sketch) : Option Sketch :=
  let text := k.buffer
  let k := { k with buffer := [] }
  if p.character? = some '=' then
    if text.isEmpty || endsOnType k.address then none
    else some { k.towardsOperation.addNode text with expectsName := true }
  else if k.expectsName then
    let k := { k with expectsName := false }
    if text.isEmpty && p.rest.isEmpty then some k
    else if text.isEmpty || !endsOnType k.address then none
    else some (k.nameNode text)
  else if text = ['.', '.'] then
    if k.address.isEmpty then none
    else some { k.towardsOperation with address := k.address.dropLast }
  else if text.isEmpty || text = ['.'] then some k
  else if endsOnType k.address then some (k.towardsOperation.nameNode text)
  else some (k.towardsOperation.addNode text)

/-- The name of an operation or of a command is complete. -/
def operationNameDone (k : Sketch) : Sketch :=
  if k.buffer.isEmpty then k else { k with buffer := [], operation := some k.buffer }

/-- An argument with a name is complete. -/
def argumentDone (k : Sketch) : Sketch :=
  match k.name with
  | none => (k.addArgument (some k.buffer) none).fresh
  | some name => (k.addArgument (some name) (some (if k.hasValue then k.buffer else []))).fresh

/-- The sketch with a property that has no value of its own, unless its name is empty. -/
def addFlag (k : Sketch) (name value : Text) : Sketch :=
  if name.isEmpty then k else k.addArgument (some name) (some value)

/-- A property is complete. -/
def propertyDone (k : Sketch) : Option Sketch :=
  match k.name with
  | none =>
    match trim k.buffer with
    | '!' :: rest =>
      let name := trimStart rest
      if name.head? = some '!' then none else some (k.addFlag name Reading.unsetValue).fresh
    | name => some (k.addFlag name Reading.setValue).fresh
  | some [] => none
  | some name => some (k.addArgument (some name) (some (trim k.buffer))).fresh

/-- A header is complete. -/
def headerDone (k : Sketch) : Option Sketch :=
  match k.name with
  | none => if (trim k.buffer).isEmpty then none else some k.fresh
  | some name =>
    if name.isEmpty then none
    else if (trim k.buffer).isEmpty then some k.fresh
    else some { k with headers := Entries.insert name (trim k.buffer) k.headers }.fresh

/-! ## Signals -/

/-- Whether the current value is an argument of its own. -/
def isPositional : List StateName → Bool
  | _ :: outer :: _ => outer != .nameValueSeparator
  | _ => true

/-- A state has been entered. -/
def entered (p : Spot) (active : List StateName) (x : StateName) (k : Sketch) : Option Sketch :=
  match x with
  | .command => some { k with format := some k.spokenFormat }
  | .address => some { k with addressStart := some p.before.length }
  | .nodeSeparator =>
    let k := { k.towardsOperation with expectsName := false }
    if k.addressStart = some p.before.length then some { k with address := [] } else some k
  | .operationSeparator =>
    if endsOnType k.address then none else some { k.towardsOperation with expectsName := false }
  | .node | .commandName | .operationName | .argument | .property | .header | .outputTarget =>
    some k.fresh
  | .nameValueSeparator | .propertyValue | .headerValue => some k.named
  | .argumentValue => some { if isPositional active then k.fresh else k with hasValue := true }
  | .propertyList => some { k with hasPropertyList := true, inPropertyList := true }
  | _ => some k

/-- A state is about to be left. -/
def leaving (p : Spot) (active : List StateName) (x : StateName) (k : Sketch) : Option Sketch :=
  match x with
  | .node => k.nodeDone p
  | .commandName | .operationName => some k.operationNameDone
  | .argument => some k.argumentDone
  | .argumentValue =>
    if isPositional active then some (k.addArgument none (some k.buffer)).fresh else some k
  | .property => k.propertyDone
  | .header => k.headerDone
  | .propertyList => if p.rest.isEmpty then some k else some { k with inPropertyList := false }
  | .outputTarget => some { k with outputTarget := some (trim k.buffer) }.fresh
  | _ => some k

/-- What a signal does to a sketch. -/
def react (p : Spot) : Reaction StateName Sketch := fun signal active k =>
  match signal with
  | .entered x => k.entered p active x
  | .leaving x => k.leaving p active x
  | .content => some (k.append p.character?.toList)
  | .itemEnd | .nameEnd => some k

end Sketch

/-! ## What a reader and its command do -/

namespace Sketch

variable {p : Spot} {active : List StateName} {ctx : Context StateName} {r : Reader} {c : Command}

/-! ### Commands -/

@[simp] theorem of_withSeparator (separator : Separator) (index : Int) :
    of (r, c.withSeparator separator index) = of (r, c) := rfl

@[simp] theorem of_withPart (index : Int) : of (r, c.withPart index) = of (r, c) := rfl

@[simp] theorem of_towardsOperation :
    of (r, c.towardsOperation) = (of (r, c)).towardsOperation := rfl

@[simp] theorem of_addNode (type : Text) : of (r, c.addNode type) = (of (r, c)).addNode type := rfl

@[simp] theorem of_nameNode (name : Text) :
    of (r, c.nameNode name) = (of (r, c)).nameNode name := rfl

@[simp] theorem of_clear (tokens : Tokens) :
    of ({ r with tokens := tokens.clear }, c) = (of (r, c)).fresh := rfl

@[simp] theorem of_addArgument (name value : Option Text) (start stop : Int) :
    of (r, c.addArgument name value start stop) = (of (r, c)).addArgument name value := by
  simp [of, Command.addArgument, addArgument, Argument.said]

@[simp] theorem of_receiveArgument (name : Option Text) (value : Text) (start stop : Int) :
    of (r, c.receiveArgument name value start stop) = (of (r, c)).addArgument name (some value) := by
  unfold Command.receiveArgument
  dsimp only
  split
  · rw [of_withPart, of_addArgument]
  · rw [of_addArgument]

theorem modify_concat {α : Type} (l : List α) (a : α) (f : α → α) :
    (l ++ [a]).modify l.length f = l ++ [f a] :=
  List.modifyTailIdx_add (List.modifyHead f) 0 l [a]

/-- A name with a separator and no value is an argument with an empty value. -/
theorem of_receiveNameValueSeparator (name : Text) (start stop part index : Int) :
    of (r, ((c.addArgument (some name) none start stop).withPart part).receiveNameValueSeparator
      index) = (of (r, c)).addArgument (some name) (some []) := by
  simp [of, Command.receiveNameValueSeparator, Command.addArgument, Command.withPart,
    Command.withSeparator, addArgument, Argument.said, modify_concat]

/-! ### Reading -/

/-- The sketch after a reader has made its reports, if nobody finds anything wrong. -/
def afterwards (outcome : EStateM.Result FormatError Reader.Work Unit) (c : Command) :
    Option Sketch :=
  match outcome with
  | .ok _ work =>
    match Reader.deliver Command.handler work.reports c with
    | (c, none) => some (of (work.reader, c))
    | (_, some _) => none
  | .error _ _ => none

section

theorem isPositional_of_shows (h : ctx.Shows grammar p active) :
    Reading.isPositional ctx = isPositional active := by
  rw [← h.active, Context.active, Reading.isPositional]
  obtain _ | ⟨_, _ | _⟩ := ctx.stack.frames <;> rfl

open Reading

theorem afterwards_argumentDone :
    afterwards (Reading.argumentDone ctx { reader := r }) c = some (of (r, c)).argumentDone := by
  have hname : (of (r, c)).name = r.tokens.name := rfl
  have hvalue : (of (r, c)).hasValue = r.tokens.valueStart.isSome := rfl
  rw [argumentDone, hname, hvalue]
  unfold Reading.argumentDone argumentGap nameWithoutValue
  simp only [bind_apply, tokens_apply]
  cases r.tokens.name <;> cases r.tokens.valueStart <;> cases ctx.character?.any isGap <;>
    simp [bind_apply, report_apply, mapTokens_apply, take_apply, afterwards, Reader.deliver,
      Command.handler, Command.receive, Command.accepting, of_receiveNameValueSeparator] <;> rfl

theorem afterwards_operationNameDone :
    afterwards (Reading.operationNameDone { reader := r }) c =
      some (of (r, c)).operationNameDone := by
  have hbuffer : (of (r, c)).buffer = r.tokens.buffer := rfl
  rw [operationNameDone, hbuffer]
  unfold Reading.operationNameDone
  simp only [bind_apply, take_apply]
  cases hname : r.tokens.buffer <;>
    simp [bind_apply, pure_apply, report_apply, tokens_apply, afterwards, Reader.deliver,
      Command.handler, Command.receive, Command.accepting]
  · simp [of, hname]
  · rfl

theorem afterwards_outputTargetDone :
    afterwards (Reading.outputTargetDone { reader := r }) c =
      some { of (r, c) with outputTarget := some (trim (of (r, c)).buffer) }.fresh := rfl

variable (h : ctx.Shows grammar p active)

include h

theorem afterwards_argumentValueDone :
    afterwards (Reading.argumentValueDone ctx { reader := r }) c =
      (of (r, c)).leaving p active .argumentValue := by
  rw [leaving]
  unfold Reading.argumentValueDone argumentGap
  rw [isPositional_of_shows h]
  cases isPositional active <;> cases ctx.character?.any isGap <;>
    simp [bind_apply, pure_apply, report_apply, mapTokens_apply, take_apply, tokens_apply,
      afterwards, Reader.deliver, Command.handler, Command.receive, Command.accepting] <;> rfl

theorem afterwards_nodeDone :
    afterwards (Reading.nodeDone ctx { reader := r }) c = (of (r, c)).nodeDone p := by
  have hbuffer : (of (r, c)).buffer = r.tokens.buffer := rfl
  have hexpects : (of (r, c)).expectsName = r.expectsName := rfl
  have htype : endsOnType (of (r, c)).address = c.pendingType?.isSome := rfl
  have hpending' : c.towardsOperation.pendingType? = c.pendingType? := rfl
  rw [nodeDone]
  simp only [hbuffer, hexpects, htype]
  unfold Reading.nodeDone
  rw [h.character?, h.atEnd]
  simp only [bind_apply, take_apply, tokens_apply]
  by_cases hchar : p.character? = some '='
  · simp only [if_pos hchar]
    cases hempty : r.tokens.buffer.isEmpty <;> cases hpending : c.pendingType? <;>
      simp only [bind_apply, report_apply, update_apply, afterwards, List.nil_append,
        List.cons_append, Reader.deliver, Command.handler, Command.receive, Command.receiveType,
        Command.accepting, Command.refusing, hempty, hpending', hpending] <;> rfl
  · simp only [if_neg hchar, bind_apply, get_apply]
    cases hexpected : r.expectsName
    · simp only [Bool.false_eq_true, if_false]
      by_cases hparent : r.tokens.buffer = ['.', '.']
      · simp only [if_pos hparent]
        cases haddress : c.address.isEmpty
        all_goals
          simp only [report_apply, List.nil_append, afterwards, Reader.deliver,
            Command.handler, Command.receive, Command.receiveParent, Command.accepting,
            Command.refusing, show c.towardsOperation.address = c.address from rfl, haddress]
          rw [show (of (r, c)).address.isEmpty = c.address.isEmpty from rfl, haddress]
          rfl
      · simp only [if_neg hparent]
        by_cases hnone : r.tokens.buffer = ['.']
        · simp only [hnone]
          rfl
        · cases hempty : r.tokens.buffer.isEmpty <;> cases hpending : c.pendingType?
          all_goals
            simp [report_apply, pure_apply, afterwards, Reader.deliver, Command.handler,
              Command.receive, Command.accepting, Command.receiveTypeOrName, Command.endsOnType,
              hpending', hpending, hnone]
            rfl
    · simp only [if_true, bind_apply, update_apply]
      cases hempty : r.tokens.buffer.isEmpty <;> cases hend : p.rest.isEmpty <;>
        cases hpending : c.pendingType?
      all_goals simp [report_apply, pure_apply, afterwards, Reader.deliver, Command.handler,
        Command.receive, Command.receiveName, Command.accepting, Command.refusing,
        Command.endsOnType, hempty, hpending]
      all_goals rfl

theorem takeValue_apply (w : Reader.Work) :
    takeValue ctx w = .ok (trim w.reader.tokens.buffer)
      { w with reader := { w.reader with tokens := { w.reader.tokens with buffer := [] } } } := by
  unfold takeValue
  simp only [bind_apply, take_apply, h.error, pure_apply]
  simp

omit h in
theorem afterwards_flag (start : Int) (name value : Text) :
    afterwards ((do
        reportFlag ctx start name value
        reportOn ctx ',' (.argumentSeparator ctx.location)
        mapTokens Tokens.clear)
      { reader := { r with tokens := { r.tokens with buffer := [] } } }) c =
      some ((of (r, c)).addFlag name value).fresh := by
  unfold reportFlag reportOn addFlag
  cases hempty : name.isEmpty <;> by_cases hcomma : ctx.character? = some ','
  all_goals simp [hcomma, bind_apply, report_apply, pure_apply, mapTokens_apply, afterwards,
    Reader.deliver, Command.handler, Command.receive, Command.accepting]
  all_goals rfl

omit h in
/-- A property that is unset. -/
theorem propertyDone_of_negated {k : Sketch} {rest : Text} (hname : k.name = none)
    (htext : trim k.buffer = '!' :: rest) :
    k.propertyDone =
      if (trimStart rest).head? = some '!' then none
      else some (k.addFlag (trimStart rest) unsetValue).fresh := by
  simp only [propertyDone, hname, htext]

omit h in
/-- A property that is set. -/
theorem propertyDone_of_plain {k : Sketch} (hname : k.name = none)
    (hplain : ∀ rest, trim k.buffer = '!' :: rest → False) :
    k.propertyDone = some (k.addFlag (trim k.buffer) setValue).fresh := by
  unfold propertyDone
  rw [hname]
  dsimp only
  split
  · next rest htext => exact (hplain rest htext).elim
  · rfl

theorem afterwards_propertyDone :
    afterwards (Reading.propertyDone ctx { reader := r }) c = (of (r, c)).propertyDone := by
  have hbuffer : (of (r, c)).buffer = r.tokens.buffer := rfl
  unfold Reading.propertyDone
  simp only [bind_apply, tokens_apply]
  cases hname : r.tokens.name with
  | none =>
    have hnone : (of (r, c)).name = none := hname
    simp only [bind_apply, take_apply]
    generalize htext : trim r.tokens.buffer = text
    split
    · next rest =>
      rw [propertyDone_of_negated hnone htext]
      by_cases hdouble : (trimStart rest).head? = some '!'
      · simp only [if_pos hdouble]
        rfl
      · simp only [if_neg hdouble]
        exact afterwards_flag _ _ _
    · next hplain =>
      subst htext
      rw [propertyDone_of_plain hnone hplain]
      exact afterwards_flag _ _ _
  | some name =>
    have hsome : (of (r, c)).name = some name := hname
    rw [propertyDone, hsome, hbuffer]
    cases name with
    | nil => rfl
    | cons d name =>
      unfold reportOn nameWithoutValue
      simp only [bind_apply, takeValue_apply h]
      cases hempty : trim r.tokens.buffer <;> by_cases hcomma : ctx.character? = some ','
      all_goals
        simp [hcomma, bind_apply, report_apply, mapTokens_apply, afterwards, Reader.deliver,
          Command.handler, Command.receive, Command.accepting, of_receiveNameValueSeparator]
        rfl

theorem afterwards_headerDone :
    afterwards (Reading.headerDone ctx { reader := r }) c = (of (r, c)).headerDone := by
  have hbuffer : (of (r, c)).buffer = r.tokens.buffer := rfl
  have hname : (of (r, c)).name = r.tokens.name := rfl
  rw [headerDone, hname, hbuffer]
  unfold Reading.headerDone reportOn
  simp only [bind_apply, tokens_apply]
  cases r.tokens.name with
  | none =>
    simp only [bind_apply, take_apply, pure_apply]
    cases (trim r.tokens.buffer).isEmpty <;> by_cases hnext : ctx.character? = some ';'
    all_goals simp [hnext, bind_apply, report_apply, mapTokens_apply, fail_apply, afterwards,
      Reader.deliver, Command.handler, Command.receive, Command.accepting]
    all_goals rfl
  | some name =>
    simp only [bind_apply, takeValue_apply h, pure_apply]
    cases name.isEmpty <;> cases (trim r.tokens.buffer).isEmpty <;>
      by_cases hnext : ctx.character? = some ';'
    all_goals simp [hnext, bind_apply, report_apply, mapTokens_apply, fail_apply, afterwards,
      Reader.deliver, Command.handler, Command.receive, Command.accepting]
    all_goals rfl

/-! ### Signals -/

theorem afterwards_entered (x : StateName) :
    afterwards (Reading.entered ctx x { reader := r }) c = (of (r, c)).entered p active x := by
  have hlocation : ctx.location = p.before.length := h.location
  cases x with
  | nodeSeparator =>
    unfold Reading.entered entered
    rw [hlocation]
    have hfrom : (of (r, c)).addressStart = r.addressStart := rfl
    simp only [towardsOperation, hfrom]
    by_cases hstart : r.addressStart = some p.before.length
    all_goals
      simp only [bind_apply, update_apply, get_apply, report_apply, hstart, if_true, if_false]
      rfl
  | operationSeparator =>
    unfold Reading.entered entered
    have hpending' : c.towardsOperation.pendingType? = c.pendingType? := rfl
    rw [show endsOnType (of (r, c)).address = c.pendingType?.isSome from rfl]
    cases hpending : c.pendingType?
    all_goals
      simp only [bind_apply, update_apply, report_apply, List.nil_append, afterwards,
        Reader.deliver, Command.handler, Command.receive, Command.receiveOperationSeparator,
        hpending', hpending]
      rfl
  | argumentList =>
    unfold Reading.entered
    by_cases hdepth : 1 < ctx.stack.depth
    · simp only [if_pos hdepth]
      rfl
    · simp only [if_neg hdepth]
      rfl
  | argumentValue =>
    unfold Reading.entered entered
    rw [isPositional_of_shows h]
    cases isPositional active <;> rfl
  | address =>
    unfold Reading.entered entered
    rw [hlocation]
    rfl
  | _ => rfl

theorem afterwards_leaving (x : StateName) :
    afterwards (Reading.leaving ctx x { reader := r }) c = (of (r, c)).leaving p active x := by
  cases x with
  | node => exact afterwards_nodeDone h
  | commandName => exact afterwards_operationNameDone
  | operationName => exact afterwards_operationNameDone
  | argument => exact afterwards_argumentDone
  | argumentValue => exact afterwards_argumentValueDone h
  | property => exact afterwards_propertyDone h
  | header => exact afterwards_headerDone h
  | propertyList =>
    unfold Reading.leaving leaving
    rw [h.atEnd]
    cases p.rest.isEmpty <;> rfl
  | headerList =>
    unfold Reading.leaving leaving
    rw [h.atEnd]
    cases p.rest.isEmpty <;> rfl
  | outputTarget => exact afterwards_outputTargetDone
  | _ => rfl

theorem afterwards_signal (signal : Signal StateName) :
    afterwards (Reading.signal ctx signal { reader := r }) c =
      react p signal active (of (r, c)) := by
  cases signal with
  | entered x => exact afterwards_entered h x
  | leaving x => exact afterwards_leaving h x
  | content =>
    rw [react, ← h.character?]
    rfl
  | itemEnd => rfl
  | nameEnd => rfl

end

/-- A command line has no places of values. -/
instance : Placed Sketch := ⟨fun _ => none⟩

/-- The sketch of a reader and its command develops as the reaction says. -/
theorem sketches : (Reader.listener Command.handler).SketchedBy grammar of react where
  accepted signal gathered h hverdict := by
    obtain ⟨r, c⟩ := gathered
    rw [← afterwards_signal h signal]
    simp only [Reader.listener, Reader.hear] at hverdict ⊢
    cases hrun : Reading.signal _ signal { reader := r } with
    | ok _ work =>
      rw [hrun] at hverdict
      simp only at hverdict
      simp only [afterwards]
      cases hdeliver : Reader.deliver Command.handler work.reports c with
      | mk rest refusal => cases refusal with
        | none => rfl
        | some refusal =>
          rw [hdeliver] at hverdict
          cases hverdict
    | error e work =>
      rw [hrun] at hverdict
      simp only at hverdict
      cases hdeliver : Reader.deliver Command.handler work.reports c with
      | mk rest refusal =>
        rw [hdeliver] at hverdict
        cases refusal <;> cases hverdict
  refused signal gathered h hverdict := by
    obtain ⟨r, c⟩ := gathered
    rw [← afterwards_signal h signal]
    simp only [Reader.listener, Reader.hear] at hverdict
    cases hrun : Reading.signal _ signal { reader := r } with
    | ok _ work =>
      rw [hrun] at hverdict
      simp only at hverdict
      simp only [afterwards]
      cases hdeliver : Reader.deliver Command.handler work.reports c with
      | mk rest refusal => cases refusal with
        | none =>
          rw [hdeliver] at hverdict
          exact absurd rfl hverdict
        | some refusal => rfl
    | error e work => rfl
  place _ := rfl

/-- The sketch of a command that has been read. -/
def done (k : Sketch) : Sketch :=
  { k with
    buffer := [], name := none, hasValue := false, addressStart := none, expectsName := false
    spokenFormat := {} }

/-- The sketch of a command. -/
def ofCommand (c : Command) : Sketch := of ({}, c)

end Sketch

namespace Command

variable {settings : Settings} {entrance : Entrance} {base : List Node} {text : Text}

/-- A line that only holds blanks says nothing. -/
theorem ofCommand_read_blank (strict : Bool) (hblank : isBlankText text = true) :
    (Command.read settings strict entrance base (some text)).toOption.map Sketch.ofCommand =
      some (Sketch.ofCommand (relativeTo base)) := by
  rw [Command.read, readLine, readWith, Graph.read_of_isBlankText hblank]
  rfl

/-- What a line says, read strictly and without substitution. -/
theorem ofCommand_read (hplain : settings.substitutes = false)
    (hsolid : isBlankText text = false) :
    (Command.read settings true entrance base (some text)).toOption.map Sketch.ofCommand =
      (Scene.read grammar Sketch.react settings.maxDepth entrance.state text
        (Sketch.ofCommand (relativeTo base))).map Sketch.done := by
  have hread := Graph.sketch_readText tame_grammar Sketch.sketches hplain entrance.state text
    (({} : Reader), relativeTo base)
  rw [Sketch.ofCommand, ← hread, Command.read, readLine, readWith,
    Graph.read_of_not_isBlankText hsolid]
  cases grammar.readText settings true (Reader.listener handler) entrance.state text
      ({}, relativeTo base) with
  | mk gathered outcome =>
    cases outcome with
    | error fault => rfl
    | ok result => rfl

end Command
end CommandLine
