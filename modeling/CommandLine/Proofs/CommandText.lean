/-
# `CommandLine.Proofs.CommandText` — a command written and read again

A command is written as its *head* (a name, an address or an operation with its lists), then its
arguments and its output target, with one space between them.  A head is read as it is written if
its parts are (`Head.isLegible`), and then the arguments must not be taken for a part of it
(`isApart`).  `Command.isWritable` puts these conditions together; a command that meets them says
the same when it is read again (`Command.survives_of_isWritable`).

Not every command that can be read meets them.  One that has a header list but no operation has no
legible head, nor has one with arguments only, after a step back to the root; and a line break in
the quotes of a node is written bare.  For the type and the name of a single node, `Format.isSound`
is what the text has to be so that the line made of them is read as that node (`read_nodeLine`).
-/
import CommandLine.Proofs.ArgumentLine
import CommandLine.Proofs.OperationText

namespace CommandLine

open Text Argument Draft

/-! ## Heads -/

/-- What comes before the arguments of a command. -/
inductive Head where
  /-- The name of a command. -/
  | commandName (name : Text)
  /-- An address without an operation. -/
  | addressOnly (address : List Node)
  /-- An operation, with its property list if it has one. -/
  | operation (address : List Node) (name : Text) (properties : Option (List Said))
    (headers : List (Text × Text))

/-- The text can be the name of a command. -/
def isCommandName : Text → Bool
  | [] => false
  | d :: name => !(['/', ':', '.'].contains d) && (d :: name).all fun e => !isGap e

theorem isEmpty_of_isCommandName {name : Text} (h : isCommandName name = true) :
    name.isEmpty = false := by
  cases name with
  | nil => cases h
  | cons _ _ => rfl

/-- A property list as it is written, if there is one. -/
def propertiesText : Option (List Said) → Text
  | none => []
  | some properties => '(' :: [','].intercalate (properties.map Said.text) ++ [')']

/-- A header list as it is written, if there are headers. -/
def headersText (headers : List (Text × Text)) : Text :=
  if headers.isEmpty then []
  else '{' :: [';', ' '].intercalate (headers.map headerText) ++ ['}']

/-- The sketch of a line that has an operation and maybe a property list behind it. -/
def Sketch.propertied (address : List Node) (name : Text) (properties : Option (List Said)) :
    Sketch :=
  { operated address name with
    hasPropertyList := properties.isSome, arguments := properties.getD [] }

namespace Head

/-- The head as it is written. -/
def text : Head → Text
  | commandName name => name
  | addressOnly address => address.flatMap ({} : Format).addressNode
  | operation address name properties headers =>
    address.flatMap ({} : Format).addressNode ++ ':' :: name ++ propertiesText properties ++
      headersText headers

/-- What is known about a command that has this head. -/
def sketch : Head → Sketch
  | commandName name => { format := some {}, operation := some name }
  | addressOnly address => Sketch.addressed address
  | operation address name properties headers =>
    { Sketch.propertied address name properties with headers := headers }

/-- The characters that are still taken for a part of the head when they follow it after gaps. -/
def continues : Head → Text
  | commandName _ => []
  | addressOnly _ => ['=', '/', ':']
  | operation _ _ properties headers =>
    if properties.isNone && headers.isEmpty then ['(', '{'] else ['/', '=', ':', '{']

/-- The head is read as it is written. -/
def isLegible (maxDepth : Int) : Head → Bool
  | commandName name => isCommandName name && commandStates.length < maxDepth
  | addressOnly address => !address.isEmpty && isAddress maxDepth address
  | operation address name properties headers =>
    isAddress maxDepth address && !Sketch.endsOnType address && isOperationName name &&
      operationStates.length < maxDepth &&
      (properties.getD []).all (Said.isProperty maxDepth) &&
      headers.all (isHeader maxDepth) && decide (headers.map Prod.fst).Nodup

end Head

/-- A draft has the head of a command behind it, after which the command is known up to its
arguments. -/
structure Headed (maxDepth : Int) (head continues : Text) (sc : Draft) (k : Sketch) : Prop where
  gap : ∀ rest, (rest.dropWhile isGap).head?.any continues.contains = false →
    handle ⟨maxDepth, head, ' ' :: rest⟩ sc = some ⟨argumentStates commandStates, k⟩
  finish : ∀ before, Draft.finish ⟨maxDepth, before, []⟩ sc = some ⟨[], k⟩

namespace Headed

variable {maxDepth : Int} {head : Text} {k k' : Sketch} {address : List Node} {name : Text}

theorem isBesideSeparator_nil (head following rest : Text) (d : Char) :
    (⟨maxDepth, head, d :: rest⟩ : Spot).isBesideSeparator following [] =
      (rest.dropWhile isGap).head?.any following.contains := by
  rw [Spot.isBesideSeparator]
  cases (head.reverse.dropWhile isGap).head? <;> simp

theorem addressOnly (hroom : commandStates.length < maxDepth) (hk : k.Addresses address) :
    Headed maxDepth head ['=', '/', ':'] ⟨nodeStates, k⟩ (Sketch.addressed address) where
  gap rest hrest :=
    handle_node_gap rfl rfl hroom ((isBesideSeparator_nil _ _ _ _).trans hrest)
      (hk _ (by simp [Spot.character?]))
  finish _ := finish_node rfl (hk _ (by simp [Spot.character?]))

theorem operationName (hroom : commandStates.length < maxDepth) :
    Headed maxDepth head ['(', '{'] ⟨operationNameStates, k⟩ k.operationNameDone where
  gap _ hrest :=
    handle_operationName_gap rfl rfl hroom ((isBesideSeparator_nil _ _ _ _).trans hrest)
  finish _ := finish_operationName rfl

theorem listed {d : Char} (hd : isGap d = false) (hd' : ['/', '='].contains d = false)
    (hroom : commandStates.length < maxDepth) :
    Headed maxDepth (head ++ [d]) ['/', '=', ':', '{'] ⟨addressStates, k⟩ k where
  gap rest hrest := by
    refine handle_address_gap rfl rfl hroom ?_
    have hbefore : ((head ++ [d]).reverse.dropWhile isGap).head? = some d := by
      rw [List.reverse_concat, List.dropWhile_cons, hd]
      rfl
    rw [Spot.isBesideSeparator, hbefore, Option.any_some, hd', Bool.or_false]
    exact hrest
  finish _ := finish_address rfl

theorem walk_commandName_chars (hname : name.all (fun e => !isGap e) = true)
    (before after : Text) (k : Sketch) :
    Draft.walk maxDepth before name after ⟨.commandName :: commandStates, k⟩ =
      some ⟨.commandName :: commandStates, k.append name⟩ := by
  refine walk_content (fun d hd => ?_) hname before after k
  rw [Bool.not_eq_true'] at hd
  rw [State.actionFor_singleton, hd]
  rfl

/-- The name of a command is read as it is written. -/
theorem walk_commandName (hname : isCommandName name = true)
    (hroom : commandStates.length < maxDepth) (before after : Text) (k : Sketch) :
    Draft.walk maxDepth before name after ⟨commandStates, k⟩ =
      some ⟨.commandName :: commandStates, { k.fresh with buffer := name }⟩ := by
  cases name with
  | nil => cases hname
  | cons d name =>
    simp only [isCommandName, List.all_cons, Bool.and_eq_true, Bool.not_eq_true',
      List.contains_cons, List.contains_nil, Bool.or_false, Bool.or_eq_false_iff,
      beq_eq_false_iff_ne] at hname
    obtain ⟨⟨hslash, hcolon, hdot⟩, hgap, hname⟩ := hname
    have hstart : handle ⟨maxDepth, before, d :: (name ++ after)⟩ ⟨commandStates, k⟩ =
        some ⟨.commandName :: commandStates, k.fresh.append [d]⟩ := by
      have haction : (grammar .command).actionFor [d] = .enter .commandName := by
        rw [State.actionFor_singleton, hgap]
        simp [grammar, Grammar.command, hslash, hcolon, hdot]
      rw [handle_cons rfl, haction, act_enter hroom rfl]
      exact act_content rfl
    rw [walk_cons_of hstart, walk_commandName_chars hname]
    rfl

theorem commandName (hroom : commandStates.length < maxDepth) :
    Headed maxDepth head [] ⟨.commandName :: commandStates, k⟩ k.operationNameDone where
  gap rest _ := by
    have haction : (grammar .commandName).actionFor [' '] = .leave := rfl
    rw [handle_cons rfl, haction, act_leave rfl]
    exact act_enter (p := ⟨maxDepth, head, ' ' :: rest⟩) hroom rfl
  finish before := by
    have hleave : leave ⟨maxDepth, before, []⟩ ⟨.commandName :: commandStates, k⟩ =
        some ⟨commandStates, k.operationNameDone⟩ := act_leave rfl
    exact finish_of_unwinds (Unwinds.leaving rfl hleave (by simp) Unwinds.single) rfl rfl

end Headed

section

variable {maxDepth : Int} {address : List Node} {name : Text} {properties : List Said}
  {headers : List (Text × Text)}

/-- The `:` of an operation, after an address that ends on no type. -/
theorem walk_operationSeparator (haddress : isAddress maxDepth address = true)
    (hend : Sketch.endsOnType address = false) (hroom : addressStates.length < maxDepth)
    (rest after : Text) :
    Draft.walk maxDepth [] (address.flatMap ({} : Format).addressNode ++ ':' :: rest) after
        ⟨commandStates, { format := some {} }⟩ =
      Draft.walk maxDepth (address.flatMap ({} : Format).addressNode ++ [':']) rest after
        ⟨operationStates, Sketch.addressed address⟩ := by
  by_cases hne : address = []
  · subst hne
    have hstart : handle ⟨maxDepth, [], ':' :: (rest ++ after)⟩
        ⟨commandStates, { format := some {} }⟩ = some ⟨operationStates, Sketch.addressed []⟩ := by
      rw [handle_command_address rfl (.inr (.inl rfl)) (Int.lt_trans (by decide) hroom)]
      exact act_enter hroom rfl
    exact walk_cons_of hstart
  · obtain ⟨k, hwalk, hk⟩ := walk_address hne haddress (':' :: rest ++ after)
    have hreact (p : Spot) : Sketch.react p (.entered .operationSeparator)
        (.operationSeparator :: addressStates) (Sketch.addressed address) =
          some (Sketch.addressed address) := by
      have hend' : Sketch.endsOnType (Sketch.addressed address).address = false := hend
      rw [Sketch.react, Sketch.entered, hend', if_neg Bool.false_ne_true]
      rfl
    have hcolon (before : Text) : handle ⟨maxDepth, before, ':' :: (rest ++ after)⟩
        ⟨nodeStates, k⟩ = some ⟨operationStates, Sketch.addressed address⟩ :=
      handle_node_colon rfl hroom (hk _ (by simp [Spot.character?])) (hreact _)
    rw [walk_append_of hwalk, walk_cons_of (hcolon _), List.nil_append]

/-- The sketch within the name of an operation. -/
def Sketch.operating (address : List Node) (name : Text) : Sketch :=
  { addressed address with buffer := name }

theorem operationNameDone_operating (hname : name.isEmpty = false) :
    (Sketch.operating address name).operationNameDone = Sketch.operated address name := by
  rw [Sketch.operationNameDone, show (Sketch.operating address name).buffer = name from rfl, hname]
  rfl

/-- An operation, up to its header list. -/
theorem walk_propertied {properties : Option (List Said)} (hname : name.isEmpty = false)
    (hproperties : (properties.getD []).all (Said.isProperty maxDepth) = true)
    (hroom : addressStates.length < maxDepth) (address : List Node) (before after : Text) :
    ∃ sc, Draft.walk maxDepth before (propertiesText properties) after
        ⟨operationNameStates, Sketch.operating address name⟩ = some sc ∧
      Headed maxDepth (before ++ propertiesText properties)
        (if properties.isNone then ['(', '{'] else ['/', '=', ':', '{']) sc
        (Sketch.propertied address name properties) ∧
      ∀ before rest, handle ⟨maxDepth, before, '{' :: rest⟩ sc =
        some ⟨headerListStates, Sketch.propertied address name properties⟩ := by
  have hroom' : commandStates.length < maxDepth := Int.lt_trans (by decide) hroom
  have hdone : (Sketch.operating address name).operationNameDone = Sketch.operated address name :=
    operationNameDone_operating hname
  cases properties with
  | none =>
    refine ⟨_, rfl, ?_, fun before rest => ?_⟩
    · have hheaded : Headed maxDepth (before ++ []) ['(', '{']
          ⟨operationNameStates, Sketch.operating address name⟩ _ := Headed.operationName hroom'
      rw [hdone] at hheaded
      exact hheaded
    · rw [handle_operationName_brace rfl hroom, hdone]
      rfl
  | some properties =>
    refine ⟨⟨addressStates, Sketch.propertied address name (some properties)⟩, ?_, ?_,
      fun before rest => handle_address_brace rfl hroom⟩
    · have hall : properties.all (Said.isProperty maxDepth) = true := hproperties
      rw [propertiesText, List.cons_append,
        walk_cons_of (handle_operationName_parenthesis rfl hroom), hdone,
        walk_properties rfl rfl hall hroom']
      rfl
    · rw [propertiesText, ← List.append_assoc]
      exact Headed.listed rfl rfl hroom'

/-- The headers of an operation, if it has any. -/
theorem walk_headersText {before continues after : Text} {k : Sketch} {sc : Draft}
    (hheaded : Headed maxDepth before continues sc k)
    (hbrace : ∀ before rest, handle ⟨maxDepth, before, '{' :: rest⟩ sc =
      some ⟨headerListStates, k⟩)
    (hk : k.fresh = k) (hnone : k.headers = [])
    (hheaders : headers.all (isHeader maxDepth) = true) (hkeys : (headers.map Prod.fst).Nodup)
    (hroom : commandStates.length < maxDepth) :
    ∃ sc', Draft.walk maxDepth before (headersText headers) after sc = some sc' ∧
      Headed maxDepth (before ++ headersText headers)
        (if headers.isEmpty then continues else ['/', '=', ':', '{']) sc'
        { k with headers := headers } := by
  by_cases hne : headers = []
  · subst hne
    have hsame : ({ k with headers := [] } : Sketch) = k := by rw [← hnone]
    rw [show headersText [] = [] from rfl, List.append_nil, hsame]
    exact ⟨sc, rfl, hheaded⟩
  · have hlisted : headersText headers =
        '{' :: ([';', ' '].intercalate (headers.map headerText) ++ ['}']) := by
      rw [headersText, if_neg (by simpa using hne)]
      rfl
    have hkeys' : ((k.headers ++ headers).map Prod.fst).Nodup := by rwa [hnone]
    refine ⟨⟨addressStates, { k with headers := headers }⟩, ?_, ?_⟩
    · rw [hlisted, walk_cons_of (hbrace _ _), walk_headers hne hk hheaders hkeys', hnone]
      rfl
    · rw [if_neg (by simpa using hne), hlisted, ← List.cons_append, ← List.append_assoc]
      exact Headed.listed rfl rfl hroom

end

namespace Head

variable {maxDepth : Int} {head : Head}

theorem walk_operation {address : List Node} {name : Text} {properties : Option (List Said)}
    {headers : List (Text × Text)} (haddress : isAddress maxDepth address = true)
    (hend : Sketch.endsOnType address = false) (hname : isOperationName name = true)
    (hroom : operationStates.length < maxDepth)
    (hproperties : (properties.getD []).all (Said.isProperty maxDepth) = true)
    (hheaders : headers.all (isHeader maxDepth) = true) (hkeys : (headers.map Prod.fst).Nodup)
    (after : Text) :
    ∃ sc, Draft.walk maxDepth [] (operation address name properties headers).text after
        ⟨commandStates, { format := some {} }⟩ = some sc ∧
      Headed maxDepth (operation address name properties headers).text
        (operation address name properties headers).continues sc
        (operation address name properties headers).sketch := by
  have hroom' : addressStates.length < maxDepth := Int.lt_trans (by decide) hroom
  have hwalk (after : Text) : Draft.walk maxDepth []
      (address.flatMap ({} : Format).addressNode ++ ':' :: name) after
        ⟨commandStates, { format := some {} }⟩ =
      some ⟨operationNameStates, Sketch.operating address name⟩ := by
    rw [walk_operationSeparator haddress hend hroom', walk_operationName hname hroom]
    rfl
  obtain ⟨sc, hproperties, hheaded, hbrace⟩ := walk_propertied
    (isEmpty_of_isOperationName hname) hproperties hroom' address
    (address.flatMap ({} : Format).addressNode ++ ':' :: name) (headersText headers ++ after)
  obtain ⟨sc', hlisted, hheaded⟩ := @walk_headersText _ _ _ _ after _ _ hheaded hbrace rfl rfl
    hheaders hkeys (Int.lt_trans (by decide) hroom)
  refine ⟨sc', ?_, ?_⟩
  · rw [text, walk_append_of ((walk_append_of (hwalk _)).trans hproperties), List.nil_append]
    exact hlisted
  · have hcontinues : (operation address name properties headers).continues =
        if headers.isEmpty then if properties.isNone then ['(', '{'] else ['/', '=', ':', '{']
        else ['/', '=', ':', '{'] := by
      cases properties <;> cases headers <;> rfl
    rw [text, hcontinues]
    exact hheaded

/-- A legible head is read as it is written. -/
theorem walk (hhead : head.isLegible maxDepth = true) (after : Text) :
    ∃ sc, Draft.walk maxDepth [] head.text after ⟨commandStates, { format := some {} }⟩ =
        some sc ∧ Headed maxDepth head.text head.continues sc head.sketch := by
  cases head with
  | commandName name =>
    simp only [isLegible, Bool.and_eq_true, decide_eq_true_eq] at hhead
    obtain ⟨hname, hroom⟩ := hhead
    have hheaded : Headed maxDepth name []
        ⟨.commandName :: commandStates, { format := some {}, buffer := name }⟩ _ :=
      Headed.commandName hroom
    refine ⟨_, Headed.walk_commandName hname hroom _ _ _, ?_⟩
    cases name with
    | nil => cases hname
    | cons d name => exact hheaded
  | addressOnly address =>
    simp only [isLegible, Bool.and_eq_true, Bool.not_eq_true', List.isEmpty_eq_false_iff] at hhead
    obtain ⟨hne, haddress⟩ := hhead
    obtain ⟨k, hwalk, hk⟩ := walk_address hne haddress after
    exact ⟨_, hwalk, Headed.addressOnly (room_of_isAddress hne haddress) hk⟩
  | operation address name properties headers =>
    simp only [isLegible, Bool.and_eq_true, Bool.not_eq_true', decide_eq_true_eq] at hhead
    obtain ⟨⟨⟨⟨⟨⟨haddress, hend⟩, hname⟩, hroom⟩, hproperties⟩, hheaders⟩, hkeys⟩ := hhead
    exact walk_operation haddress hend hname hroom hproperties hheaders hkeys after

theorem isEmpty_text (hhead : head.isLegible maxDepth = true) : head.text.isEmpty = false := by
  cases head with
  | commandName name =>
    exact isEmpty_of_isCommandName (Bool.and_eq_true_iff.1 hhead).1
  | addressOnly address =>
    cases address with
    | nil => cases hhead
    | cons _ _ => rfl
  | operation address name properties headers => simp [text]

theorem fresh_sketch (head : Head) : head.sketch.fresh = head.sketch := by
  cases head <;> rfl

theorem room_of_isLegible (hhead : head.isLegible maxDepth = true) :
    commandStates.length < maxDepth := by
  cases head with
  | commandName name =>
    simp only [isLegible, Bool.and_eq_true, decide_eq_true_eq] at hhead
    exact hhead.2
  | addressOnly address =>
    simp only [isLegible, Bool.and_eq_true, Bool.not_eq_true', List.isEmpty_eq_false_iff] at hhead
    exact room_of_isAddress hhead.1 hhead.2
  | operation address name properties headers =>
    simp only [isLegible, Bool.and_eq_true, decide_eq_true_eq] at hhead
    exact Int.lt_trans (by decide) hhead.1.1.1.2

end Head

/-! ## Lines -/

/-- A command as it is written. -/
def commandLine (head : Head) (args : List Said) (target : Option Text) : Text :=
  [' '].intercalate (head.text :: (args.map Said.text ++ Format.target { outputTarget := target }))

section

variable {maxDepth : Int} {head : Head} {args : List Said} {target : Option Text} {k : Sketch}
  {p : Spot}

/-- The end of a command. -/
theorem unwinds_command (hrest : p.rest = []) :
    Unwinds p ⟨argumentStates commandStates, k⟩ (some ⟨commandStates, k⟩) := by
  have hleave : leave p ⟨argumentStates commandStates, k⟩ = some ⟨commandStates, k⟩ := by
    rw [leave, act_leave rfl]
    show act p 1000 (.enterUnlessEnd .argumentList) ⟨commandStates, k⟩ = _
    rw [act_enterUnlessEnd, hrest]
    rfl
  exact Unwinds.leaving rfl hleave (by simp) Unwinds.single

theorem grounds_command (hrest : p.rest = []) : Grounds p commandStates :=
  ⟨rfl, fun _ => ⟨_, unwinds_command hrest⟩⟩

/-- What follows a head is not taken for a part of it. -/
def isApart (head : Head) (args : List Said) (target : Option Text) : Bool :=
  !((argumentLine args target).dropWhile isGap).head?.any head.continues.contains

/-- Reading a line of a command. -/
theorem read_command {maxDepth : Int} {text : Text} (hroom : 0 < maxDepth) :
    Scene.read grammar Sketch.react maxDepth .command text {} =
      ((Draft.walk maxDepth [] text [] ⟨commandStates, { format := some {} }⟩).bind
        (Draft.finish ⟨maxDepth, text, []⟩)).map Scene.gathered := by
  have henter : Scene.enter grammar Sketch.react ⟨maxDepth, [], text⟩ .command ⟨[], {}⟩ =
      some ⟨commandStates, { format := some {} }⟩ :=
    act_enter (p := ⟨maxDepth, [], text⟩) (n := 1000) hroom rfl
  rw [Scene.read, henter]
  rfl

/-- A command is read as it is written. -/
theorem read_commandLine (hhead : head.isLegible maxDepth = true)
    (hsayable : Sayable maxDepth commandStates args target)
    (hapart : isApart head args target = true) :
    Scene.read grammar Sketch.react maxDepth .command (commandLine head args target) {} =
      some { head.sketch.having args with outputTarget := solidTarget target } := by
  have hroom := head.room_of_isLegible hhead
  have hnone : head.sketch.outputTarget = none := by
    cases head <;> rfl
  have hrun : (Draft.walk maxDepth [] (commandLine head args target) []
        ⟨commandStates, { format := some {} }⟩).bind
          (Draft.finish ⟨maxDepth, commandLine head args target, []⟩) =
      some ⟨[], { head.sketch.having args with outputTarget := solidTarget target }⟩ := by
    by_cases hparts : args.map Said.text ++ Format.target { outputTarget := target } = []
    · obtain ⟨sc, hwalk, hheaded⟩ := head.walk hhead []
      have hline : commandLine head args target = head.text := by
        rw [commandLine, hparts]
        exact List.intercalate_singleton
      rw [List.append_eq_nil_iff, List.map_eq_nil_iff, target_eq] at hparts
      obtain ⟨rfl, htarget⟩ := hparts
      have htarget' : solidTarget target = none := by
        cases h : solidTarget target with
        | none => rfl
        | some text =>
          rw [h] at htarget
          cases htarget
      rw [hline, hwalk, Option.bind_some, hheaded.finish, Sketch.having_nil head.fresh_sketch,
        htarget', ← hnone]
    · have hline : commandLine head args target =
          head.text ++ ' ' :: argumentLine args target := by
        rw [commandLine, intercalate_cons _ hparts]
        rfl
      obtain ⟨sc, hwalk, hheaded⟩ := head.walk hhead (' ' :: argumentLine args target ++ [])
      have hgap := hheaded.gap (argumentLine args target ++ [])
        (by rw [List.append_nil]; simpa [isApart] using hapart)
      have hlist : head.sketch.inPropertyList = false := by
        cases head <;> rfl
      rw [hline, walk_append_of hwalk, List.nil_append, walk_cons_of hgap, finish_argumentLine
        (p := ⟨maxDepth, head.text ++ ' ' :: argumentLine args target, []⟩) (grounds_command rfl)
        head.fresh_sketch hlist hnone hsayable]
      exact finish_of_unwinds (unwinds_command rfl) rfl rfl
  rw [read_command (Int.lt_trans (by decide) hroom), hrun]
  rfl

end

/-! ## Commands -/

/-- Arguments and output target are what can be said at the end of a line. -/
def isSayable (maxDepth : Int) (outer : List StateName) (args : List Said) : Option Text → Bool
  | none => Said.areLegible maxDepth outer true args
  | some target =>
    (argumentStates outer).length < maxDepth && trim target = target &&
      args.all (Said.isLegible maxDepth outer false)

theorem sayable_of_isSayable {maxDepth : Int} {outer : List StateName} {args : List Said}
    {target : Option Text} (h : isSayable maxDepth outer args target = true) :
    Sayable maxDepth outer args target := by
  cases target with
  | none => exact .arguments h
  | some target =>
    simp only [isSayable, Bool.and_eq_true, decide_eq_true_eq] at h
    exact .target h.1.1 h.1.2 h.2

namespace Command

/-- The properties of the operation. -/
def properties (c : Command) : List Argument := c.arguments.filter Argument.inPropertyList

/-- The arguments after the head. -/
def trailing (c : Command) : List Argument := c.arguments.filter fun a => !a.inPropertyList

/-- The properties of the operation, if it has a property list. -/
def properties? (c : Command) : Option (List Said) :=
  if c.properties.isEmpty && !c.hasPropertyList then none
  else some (c.properties.map Argument.said)

/-- The command has an operation name and neither an address nor lists, or an address and no
lists. -/
def isPlain (c : Command) : Bool := c.properties?.isNone && c.headers.isEmpty

/-- The head of a command. -/
def head? (c : Command) : Option Head :=
  match c.operation with
  | none => if !c.address.isEmpty && c.isPlain then some (.addressOnly c.address) else none
  | some name =>
    if c.isOperation then some (.operation c.address name c.properties? c.headers)
    else if c.address.isEmpty && c.isPlain then some (.commandName name)
    else none

/-- There is nothing to write. -/
def isSilent (c : Command) : Bool :=
  c.address.isEmpty && c.operation.isNone && c.isPlain && c.arguments.isEmpty &&
    c.target?.isNone

/-- The command is read as it is written: each part is legible and is not taken for a part of
another one. -/
def isWritable (maxDepth : Int) (c : Command) : Bool :=
  match c.head? with
  | none => c.isSilent
  | some head =>
    c.format.getD {} = {} && c.properties ++ c.trailing = c.arguments &&
      head.isLegible maxDepth &&
      isSayable maxDepth commandStates (c.trailing.map Argument.said) c.target? &&
      isApart head (c.trailing.map Argument.said) c.target? && !isBlankText c.toLine

/-- The command says the same when it is written and read again. -/
structure SurvivesAs (c d : Command) : Prop where
  address : d.address = c.address
  operation : d.operation = c.operation
  pairs : d.pairs = c.pairs
  headers : d.headers = c.headers
  target? : d.target? = c.target?

section

variable {settings : Settings} {maxDepth : Int} {c : Command} {head : Head}

theorem headerList_eq (c : Command) : ({} : Format).headerList c = headersText c.headers := by
  have htext : (fun h : Text × Text => h.1 ++ ({} : Format).nameValueSeparator ++ h.2) =
      headerText :=
    funext fun h => List.append_assoc _ _ _
  rw [Format.headerList, headersText, htext]

theorem propertyList_eq (hwritten : ∀ a ∈ c.properties,
    (({} : Format).argument? a.name a.value).isSome = true) :
    ({} : Format).propertyList c = propertiesText c.properties? := by
  rw [Format.propertyList, properties?]
  have hproperties : c.arguments.filter Argument.inPropertyList = c.properties := rfl
  rw [hproperties]
  split
  · rfl
  · rw [propertiesText, Format.arguments_eq_texts hwritten]

theorem lists_of_isPlain (h : c.isPlain = true) :
    c.properties? = none ∧ c.properties = [] ∧ c.hasPropertyList = false ∧ c.headers = [] := by
  rw [isPlain, Bool.and_eq_true, List.isEmpty_iff, Option.isNone_iff_eq_none] at h
  obtain ⟨hnone, hheaders⟩ := h
  have hlists := hnone
  rw [properties?] at hlists
  split at hlists
  · next hempty =>
    rw [Bool.and_eq_true, List.isEmpty_iff, Bool.not_eq_true'] at hempty
    exact ⟨hnone, hempty.1, hempty.2, hheaders⟩
  · cases hlists

/-- The three kinds of heads. -/
theorem head?_cases (h : c.head? = some head) :
    (c.operation = none ∧ c.isPlain = true ∧ head = .addressOnly c.address) ∨
    (∃ name, c.operation = some name ∧ c.isOperation = true ∧
      head = .operation c.address name c.properties? c.headers) ∨
    (∃ name, c.operation = some name ∧ c.isOperation = false ∧ c.address = [] ∧
      c.isPlain = true ∧ head = .commandName name) := by
  rw [head?] at h
  split at h
  · next hoperation =>
    split at h
    · next hcondition =>
      exact .inl ⟨hoperation, (Bool.and_eq_true_iff.1 hcondition).2, (Option.some.inj h).symm⟩
    · cases h
  · next name hoperation =>
    split at h
    · next hisOperation =>
      exact .inr (.inl ⟨name, hoperation, hisOperation, (Option.some.inj h).symm⟩)
    · next hisOperation =>
      split at h
      · next hcondition =>
        rw [Bool.and_eq_true, List.isEmpty_iff] at hcondition
        exact .inr (.inr ⟨name, hoperation, Bool.eq_false_iff.2 hisOperation, hcondition.1,
          hcondition.2, (Option.some.inj h).symm⟩)
      · cases h

theorem properties?_of_mem {a : Argument} (ha : a ∈ c.properties) :
    c.properties? = some (c.properties.map Argument.said) :=
  if_neg (by simp [List.ne_nil_of_mem ha])

/-- Before the arguments the head is written. -/
theorem head_eq_text (hhead : c.head? = some head) (hlegible : head.isLegible maxDepth = true) :
    ({} : Format).head c = head.text := by
  have hlists (h : c.isPlain = true) :
      ({} : Format).propertyList c = [] ∧ ({} : Format).headerList c = [] := by
    obtain ⟨hnone, hproperties, -, hheaders⟩ := lists_of_isPlain h
    rw [propertyList_eq (hproperties ▸ nofun), headerList_eq, hheaders, hnone]
    exact ⟨rfl, rfl⟩
  rw [Format.head, Format.operation]
  obtain ⟨hoperation, hplain, rfl⟩ | ⟨name, hoperation, hisOperation, rfl⟩ |
    ⟨name, hoperation, hisOperation, haddress, hplain, rfl⟩ := head?_cases hhead
  · obtain ⟨hproperties, hheaders⟩ := hlists hplain
    rw [hoperation, hproperties, hheaders, List.append_nil, List.append_nil]
    exact List.append_nil _
  · simp only [Head.isLegible, Bool.and_eq_true] at hlegible
    have hwritten : ∀ a ∈ c.properties,
        (({} : Format).argument? a.name a.value).isSome = true := by
      intro a ha
      have hproperties := hlegible.1.1.2
      rw [properties?_of_mem ha] at hproperties
      exact Said.written_of_isProperty
        (List.all_eq_true.1 hproperties a.said (List.mem_map_of_mem ha))
    simp only [hoperation, isEmpty_of_isOperationName hlegible.1.1.1.1.2, hisOperation,
      propertyList_eq hwritten, headerList_eq]
    rfl
  · obtain ⟨hproperties, hheaders⟩ := hlists hplain
    simp only [Head.isLegible, Bool.and_eq_true] at hlegible
    simp only [hoperation, isEmpty_of_isCommandName hlegible.1, hisOperation, hproperties,
      hheaders, haddress, List.append_nil]
    rfl

theorem toLine_of_isSilent (h : c.isSilent = true) : c.toLine = [] := by
  simp only [isSilent, Bool.and_eq_true, List.isEmpty_iff, Option.isNone_iff_eq_none] at h
  obtain ⟨⟨⟨⟨haddress, hoperation⟩, hplain⟩, harguments⟩, htarget⟩ := h
  obtain ⟨-, -, hlist, hheaders⟩ := lists_of_isPlain hplain
  have htarget' : Format.target c = [] := by
    rw [target_eq, show solidTarget c.outputTarget = none from htarget]
    rfl
  simp [toLine, Format.command, Format.head, Format.operation, Format.propertyList,
    Format.headerList, Format.arguments, haddress, hoperation, hheaders, harguments, hlist,
    htarget', List.intercalate]

theorem toLine_of_head? (hformat : c.format.getD {} = {}) (hhead : c.head? = some head)
    (hlegible : head.isLegible maxDepth = true)
    (hwritten : ∀ a ∈ c.trailing, (({} : Format).argument? a.name a.value).isSome = true) :
    c.toLine = commandLine head (c.trailing.map Argument.said) c.target? := by
  have htarget : Format.target { outputTarget := c.target? } = Format.target c := by
    rw [target_eq, target_eq, target?, solidTarget_solidTarget]
  have htrailing : (c.arguments.filter fun a => !a.inPropertyList) = c.trailing := rfl
  rw [toLine, hformat, Format.command, head_eq_text hhead hlegible,
    head.isEmpty_text hlegible, if_neg Bool.false_ne_true, htrailing,
    Format.arguments_eq_texts hwritten, commandLine, htarget]
  rfl

theorem properties?_getD (c : Command) :
    c.properties?.getD [] = c.properties.map Argument.said := by
  rw [properties?]
  split
  · next hempty =>
    rw [Bool.and_eq_true, List.isEmpty_iff] at hempty
    rw [hempty.1]
    rfl
  · rfl

/-- What the head of a command says is what the command says without its other arguments. -/
theorem sketch_of_head? (hhead : c.head? = some head) :
    head.sketch.address = c.address ∧ head.sketch.operation = c.operation ∧
      head.sketch.headers = c.headers ∧
      head.sketch.arguments = c.properties.map Argument.said := by
  obtain ⟨hoperation, hplain, rfl⟩ | ⟨name, hoperation, -, rfl⟩ |
    ⟨name, hoperation, -, haddress, hplain, rfl⟩ := head?_cases hhead
  · obtain ⟨-, hproperties, -, hheaders⟩ := lists_of_isPlain hplain
    rw [hoperation, hproperties, hheaders]
    exact ⟨rfl, rfl, rfl, rfl⟩
  · exact ⟨rfl, hoperation.symm, rfl, properties?_getD c⟩
  · obtain ⟨-, hproperties, -, hheaders⟩ := lists_of_isPlain hplain
    rw [hoperation, haddress, hproperties, hheaders]
    exact ⟨rfl, rfl, rfl, rfl⟩

/-- What a command line says, read strictly and without substitution. -/
theorem read_command_of_solid (hplain : settings.substitutes = false) {text : Text}
    (hsolid : isBlankText text = false) :
    (Command.read settings true .command [] (some text)).toOption.map Sketch.ofCommand =
      (Scene.read grammar Sketch.react settings.maxDepth .command text {}).map Sketch.done :=
  ofCommand_read hplain hsolid

/-- A command that says nothing is read again from the empty line. -/
theorem survives_of_isSilent (h : c.isSilent = true) :
    ∃ d, Command.read settings true .command [] (some c.toLine) = .ok d ∧ c.SurvivesAs d := by
  obtain ⟨d, hread, hd⟩ := exists_of_toOption
    (@ofCommand_read_blank settings .command [] [] true rfl)
  rw [toLine_of_isSilent h]
  simp only [isSilent, Bool.and_eq_true, List.isEmpty_iff, Option.isNone_iff_eq_none] at h
  obtain ⟨⟨⟨⟨haddress, hoperation⟩, hplain⟩, harguments⟩, htarget⟩ := h
  obtain ⟨-, -, -, hheaders⟩ := lists_of_isPlain hplain
  refine ⟨d, hread, ?_, ?_, ?_, ?_, ?_⟩
  · exact (congrArg Sketch.address hd).trans haddress.symm
  · exact (congrArg Sketch.operation hd).trans hoperation.symm
  · rw [pairs_eq, hd, pairs, harguments]
    rfl
  · exact (congrArg Sketch.headers hd).trans hheaders.symm
  · rw [htarget, target?, show d.outputTarget = none from congrArg Sketch.outputTarget hd]
    rfl

/-- What a command line with the head and the other arguments of a command says is what the
command says. -/
theorem survivesAs_of_sketch {d : Command} (hhead : c.head? = some head)
    (hordered : c.properties ++ c.trailing = c.arguments)
    (hd : Sketch.ofCommand d = { head.sketch.having (c.trailing.map Argument.said) with
      outputTarget := solidTarget c.target? }.done) : c.SurvivesAs d := by
  obtain ⟨haddress, hoperation, hheaders, hproperties⟩ := sketch_of_head? hhead
  constructor
  · exact (congrArg Sketch.address hd).trans haddress
  · exact (congrArg Sketch.operation hd).trans hoperation
  · rw [pairs_eq, hd]
    show (head.sketch.arguments ++ c.trailing.map Argument.said).map _ = _
    rw [hproperties, ← List.map_append, hordered, List.map_map]
    rfl
  · exact (congrArg Sketch.headers hd).trans hheaders
  · rw [target?, show d.outputTarget = solidTarget c.target? from
      congrArg Sketch.outputTarget hd, target?, solidTarget_solidTarget, solidTarget_solidTarget]

/-- A writable command says the same when it is written and read again. -/
theorem survives_of_isWritable (hplain : settings.substitutes = false)
    (h : c.isWritable settings.maxDepth = true) :
    ∃ d, Command.read settings true .command [] (some c.toLine) = .ok d ∧ c.SurvivesAs d := by
  rw [isWritable] at h
  split at h
  · exact survives_of_isSilent h
  · next head hhead =>
    simp only [Bool.and_eq_true, Bool.not_eq_true', decide_eq_true_eq] at h
    obtain ⟨⟨⟨⟨⟨hformat, hordered⟩, hlegible⟩, hsayable⟩, hapart⟩, hsolid⟩ := h
    have hsayable := sayable_of_isSayable hsayable
    have hline := toLine_of_head? hformat hhead hlegible fun a ha =>
      (hsayable.written rfl (List.mem_map_of_mem ha)).2
    have hread := read_command_of_solid hplain hsolid
    rw [hline, read_commandLine hlegible hsayable hapart, ← hline] at hread
    obtain ⟨d, hd, hsketch⟩ := exists_of_toOption hread
    exact ⟨d, hd, survivesAs_of_sketch hhead hordered hsketch⟩

theorem survives_of_isWritable_of_quoted :
    ∃ c, Command.read {} true .command []
        (some "/a = \"b c\" :op( x , y = 1 ) \x7bh v;\x7d -n= z >f".toList) = .ok c ∧
      c.isWritable 256 = true ∧
      c.toLine = "/a=\"b c\":op(x=true,y=1)\x7bh=v\x7d -n= z > f".toList ∧
      ∃ d, Command.read {} true .command [] (some c.toLine) = .ok d ∧ c.SurvivesAs d := by
  have hread : (Command.read {} true .command []
      (some "/a = \"b c\" :op( x , y = 1 ) \x7bh v;\x7d -n= z >f".toList)).toOption.map
        (fun c => (c.isWritable 256, c.toLine)) =
      some (true, "/a=\"b c\":op(x=true,y=1)\x7bh=v\x7d -n= z > f".toList) := by
    decide +kernel
  obtain ⟨c, hc, hwritten⟩ := exists_of_toOption hread
  obtain ⟨hwritable, hline⟩ := Prod.mk.inj hwritten
  exact ⟨c, hc, hwritable, hline, @survives_of_isWritable {} c rfl hwritable⟩

/-- A line break within a quoted node name is written bare; read again, it ends the address, and
the operation is taken for an argument. -/
theorem not_survives_of_read_of_lineBreak :
    ∃ c, Command.read {} true .command [] (some "/a=\"b\nc\":op".toList) = .ok c ∧
      c.operation = some "op".toList ∧ c.toLine = "/a=b\nc:op".toList ∧
      ¬ ∃ d, Command.read {} true .command [] (some c.toLine) = .ok d ∧ c.SurvivesAs d := by
  have hread : (Command.read {} true .command []
      (some "/a=\"b\nc\":op".toList)).toOption.map (fun c => (c.operation, c.toLine)) =
      some (some "op".toList, "/a=b\nc:op".toList) := by
    decide +kernel
  have hagain : (Command.read {} true .command []
      (some "/a=b\nc:op".toList)).toOption.map Command.operation = some none := by
    decide +kernel
  obtain ⟨c, hc, hwritten⟩ := exists_of_toOption hread
  obtain ⟨hoperation, hline⟩ := Prod.mk.inj hwritten
  refine ⟨c, hc, hoperation, hline, ?_⟩
  rintro ⟨d, hd, hsurvives⟩
  obtain ⟨e, he, hnone⟩ := exists_of_toOption hagain
  rw [hline] at hd
  cases hd.symm.trans he
  rw [hsurvives.operation, hoperation] at hnone
  cases hnone

end
end Command

/-! ## Single nodes -/

/-- The text is read as it is written in a node.  Without quotes, a gap would end the node, and a
brace at the start would open a header list. -/
def Format.isSound (text : Text) : Bool :=
  !text.isEmpty && (!isBare text || !text.any isGap && text.head? != some '{')

/-- With room for quotes and an escape, a sound text can be a type or a name. -/
theorem isNodeText_of_isSound {maxDepth : Int} {text : Text}
    (hroom : quotesStates.length < maxDepth) (h : Format.isSound text = true) :
    isNodeText maxDepth text = true := by
  simp only [Format.isSound, Bool.and_eq_true, Bool.or_eq_true, Bool.not_eq_true'] at h
  obtain ⟨hempty, hsound⟩ := h
  unfold isNodeText
  split
  · next hbare =>
    obtain ⟨hgaps, hbrace⟩ := hsound.resolve_left fun hquoted => nomatch hbare.symm.trans hquoted
    have hchars : text.all isNodeChar = true := by
      simp only [Format.isBare, Bool.and_eq_true, Bool.not_eq_true', List.any_eq_false]
        at hbare hgaps
      refine List.all_eq_true.2 fun d hd => ?_
      rw [isNodeChar, Bool.and_eq_true, Bool.not_eq_true', Bool.not_eq_true']
      exact ⟨eq_false_of_ne_true (hgaps d hd), eq_false_of_ne_true (hbare.2 d hd)⟩
    rw [hchars, hbrace]
    exact decide_eq_true (Int.lt_trans (by decide) hroom)
  · rw [hempty, decide_eq_true hroom, Bool.or_true, Bool.and_true]
    exact decide_eq_true (Int.lt_trans (by decide) hroom)

namespace Command

/-- An operation at a node, written as a line. -/
def nodeLine (type name : Text) : Text :=
  '/' :: Format.node type ++ '=' :: Format.node name ++ [':', 'o', 'p']

/-- The address of one node is read as it is written if its type and its name are sound. -/
theorem read_nodeLine {settings : Settings} {type name : Text}
    (hplain : settings.substitutes = false) (hroom : 5 ≤ settings.maxDepth)
    (htype : Format.isSound type = true) (hname : Format.isSound name = true) :
    ∃ c, Command.read settings true .command [] (some (nodeLine type name)) = .ok c ∧
      c.address = [⟨type, some name⟩] ∧ c.operation = some ['o', 'p'] ∧ c.arguments = [] ∧
      c.headers = [] ∧ c.outputTarget = none := by
  let head := Head.operation [⟨type, some name⟩] ['o', 'p'] none []
  have hline : commandLine head [] none = nodeLine type name := by
    simp [head, commandLine, nodeLine, Head.text, propertiesText, headersText, Format.addressNode,
      Format.target]
  have hlegible : head.isLegible settings.maxDepth = true := by
    have haddress : isAddress settings.maxDepth [⟨type, some name⟩] = true := by
      simp [isAddress, isNode, isNodeText_of_isSound hroom htype, isNodeText_of_isSound hroom hname]
    have hdepth : decide ((operationStates.length : Int) < settings.maxDepth) = true :=
      decide_eq_true (Int.lt_of_lt_of_le (by decide) hroom)
    have hname : isOperationName ['o', 'p'] = true := by decide
    show (_ && _ && _ && _ && _ && _ && _) = true
    rw [haddress, hname, hdepth]
    rfl
  have hsolid : isBlankText (nodeLine type name) = false := rfl
  have hread := read_command_of_solid hplain hsolid
  rw [← hline, read_commandLine hlegible (.arguments rfl) rfl, hline] at hread
  obtain ⟨c, hc, hsketch⟩ := exists_of_toOption hread
  exact ⟨c, hc, congrArg Sketch.address hsketch, congrArg Sketch.operation hsketch,
    List.map_eq_nil_iff.1 (congrArg Sketch.arguments hsketch), congrArg Sketch.headers hsketch,
    congrArg Sketch.outputTarget hsketch⟩

theorem read_nodeLine_of_lineBreak : ({} : Settings).substitutes = false ∧
    (5 : Int) ≤ ({} : Settings).maxDepth ∧ Format.isSound ['a', ' ', '\n'] = true ∧
    Format.isSound ['b'] = true ∧
    ∃ c, Command.read {} true .command [] (some (nodeLine ['a', ' ', '\n'] ['b'])) = .ok c ∧
      c.address = [⟨['a', ' ', '\n'], some ['b']⟩] ∧ c.operation = some ['o', 'p'] ∧
      c.arguments = [] ∧ c.headers = [] ∧ c.outputTarget = none :=
  ⟨rfl, by decide, by decide, by decide,
    read_nodeLine rfl (by decide) (by decide) (by decide)⟩

/-- A line break alone is written bare, and it ends the address. -/
theorem not_read_nodeLine_of_lineBreak :
    ¬ ∃ c, Command.read {} true .command [] (some (nodeLine ['a', '\n', 'b'] ['s'])) = .ok c ∧
      c.address = [⟨['a', '\n', 'b'], some ['s']⟩] ∧ c.operation = some ['o', 'p'] ∧
      c.arguments = [] ∧ c.headers = [] := by
  have hread : (Command.read {} true .command []
      (some (nodeLine ['a', '\n', 'b'] ['s']))).toOption.map Command.operation = some none := by
    decide +kernel
  obtain ⟨d, hd, hnone⟩ := exists_of_toOption hread
  rintro ⟨c, hc, -, hoperation, -⟩
  cases hc.symm.trans hd
  cases hnone.symm.trans hoperation

end Command
end CommandLine
