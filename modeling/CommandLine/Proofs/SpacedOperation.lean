/-
# `CommandLine.Proofs.SpacedOperation` — an operation with gaps between its tokens

An operation has an address, a name, and maybe a property list and a header list
(`Operation.tokens`).  Its tokens are read as they are written, whatever gaps stand before them and
at the end of the line, if each of them is (`Operation.read_tokens`).  Words and closed values are,
so that an operation that consists of words says on a line what it says by itself
(`Operation.says_of_isPlain`).
-/
import CommandLine.Proofs.SpacedParts

namespace CommandLine

open Text Argument

/-! ## Operations -/

/-- An operation as it is put on a line. -/
structure Operation where
  /-- Type and name of each node of the address. -/
  address : List (Text × Text)
  /-- The name. -/
  name : Text
  /-- The property list, if there is one. -/
  properties : Option (List (Text × Text))
  /-- The header list, if there is one. -/
  headers : Option (List (Text × Text))

/-- The tokens of a property list, if there is one. -/
def propertyTokens : Option (List (Text × Text)) → List Text
  | none => []
  | some items => ['('] :: listTokens ',' ')' items

/-- The tokens of a header list, if there is one. -/
def headerTokens : Option (List (Text × Text)) → List Text
  | none => []
  | some items => ['{'] :: listTokens ';' '}' items

namespace Operation

/-- The tokens of an operation. -/
def tokens (op : Operation) : List Text :=
  op.address.flatMap nodeTokens ++ [[':']] ++
    ([op.name] ++ (propertyTokens op.properties ++ headerTokens op.headers))

/-- All parts of the operation are read as they are written. -/
def isLegible (maxDepth : Int) (op : Operation) : Bool :=
  quotesStates.length < maxDepth && op.address.all (fun n => !n.1.isEmpty && !n.2.isEmpty) &&
    isOperationName op.name &&
    (saidProperties (op.properties.getD [])).all (Said.isProperty maxDepth) &&
    (op.headers.getD []).all (isHeader maxDepth) &&
    decide ((op.headers.getD []).map Prod.fst).Nodup

end Operation

namespace Sketch

/-- The sketch of a line that has an address, the name of an operation and maybe a property list
behind it. -/
def listedFrom (start : Nat) (op : Operation) : Sketch :=
  { addressedFrom start (namedNodes op.address) with
    operation := some op.name
    hasPropertyList := op.properties.isSome
    arguments := saidProperties (op.properties.getD []) }

/-- The sketch of a line that has an operation behind it. -/
def operatedFrom (start : Nat) (op : Operation) : Sketch :=
  { listedFrom start op with headers := op.headers.getD [] }

/-- The sketch within the name of an operation. -/
def operatingFrom (start : Nat) (op : Operation) : Sketch :=
  { addressedFrom start (namedNodes op.address) with buffer := op.name }

theorem operationNameDone_operatingFrom {op : Operation} (start : Nat)
    (hname : op.name.isEmpty = false) :
    (operatingFrom start op).operationNameDone =
      { addressedFrom start (namedNodes op.address) with operation := some op.name } := by
  rw [operationNameDone, show (operatingFrom start op).buffer = op.name from rfl, hname]
  rfl

end Sketch

namespace Draft

open StateName

variable {maxDepth : Int} {k : Sketch} {sc : Draft} {gaps text : Text} {d : Char} {start : Nat}
  {op : Operation}

/-- After the text the line can end, and gaps make no difference. -/
def Ended (maxDepth : Int) (text : Text) (sc : Draft) (k : Sketch) : Prop :=
  ∀ gaps line, gaps.all isGap = true →
    (walk maxDepth text gaps [] sc).bind (finish ⟨maxDepth, line, []⟩) = some ⟨[], k⟩

/-- Gaps after an operation end it. -/
theorem ended_of_gap {states : List StateName} {k' : Sketch}
    (hend : ∀ line, finish ⟨maxDepth, line, []⟩ ⟨states, k⟩ = some ⟨[], k'⟩)
    (hgap : ∀ d gaps, isGap d = true → gaps.all isGap = true →
      handle ⟨maxDepth, text, d :: gaps⟩ ⟨states, k⟩ =
        some ⟨argumentStates commandStates, k'⟩) :
    Ended maxDepth text ⟨states, k⟩ k' := by
  intro gaps line hgaps
  cases gaps with
  | nil => exact hend line
  | cons d gaps =>
    rw [List.all_cons, Bool.and_eq_true] at hgaps
    have hd := hgap d gaps hgaps.1 hgaps.2
    rw [← List.append_nil gaps] at hd
    rw [walk_cons_of hd, walk_gaps_of_skip (fun _ => actionFor_gap (x := .argumentList) rfl)
      hgaps.2, Option.bind_some]
    exact finish_of_unwinds (unwinds_command rfl) rfl rfl

/-- No separator follows gaps at the end of a line. -/
theorem not_isBesideSeparator {before following preceding : Text} {c : Char}
    (hgaps : gaps.all isGap = true) (hc : isGap c = false)
    (hpreceding : preceding.contains c = false) :
    (⟨maxDepth, before ++ [c], d :: gaps⟩ : Spot).isBesideSeparator following preceding = false := by
  rw [Spot.isBesideSeparator, List.drop_one, List.tail_cons,
    List.dropWhile_eq_nil_iff.2 (List.all_eq_true.1 hgaps), List.reverse_concat,
    List.dropWhile_cons, hc, if_neg Bool.false_ne_true, List.head?_cons, Option.any_some,
    hpreceding]
  rfl

theorem ended_operationName (hroom : commandStates.length < maxDepth) :
    Ended maxDepth text ⟨operationNameStates, k⟩ k.operationNameDone := by
  refine ended_of_gap (fun _ => finish_operationName rfl) fun d gaps hd hgaps => ?_
  refine handle_operationName_gap rfl hd hroom ?_
  rw [Headed.isBesideSeparator_nil, List.dropWhile_eq_nil_iff.2 (List.all_eq_true.1 hgaps)]
  rfl

theorem ended_list {c : Char} (hroom : commandStates.length < maxDepth) (hc : isGap c = false)
    (hseparator : ['/', '='].contains c = false) :
    Ended maxDepth (text ++ [c]) ⟨addressStates, k⟩ k :=
  ended_of_gap (fun _ => finish_address rfl) fun _ _ hd hgaps =>
    handle_address_gap rfl hd hroom (not_isBesideSeparator hgaps hc hseparator)

/-- The name of an operation. -/
theorem leads_operationName (hname : isOperationName op.name = true)
    (hroom : operationStates.length < maxDepth) :
    Leads maxDepth start [op.name]
      ⟨operationStates, Sketch.addressedFrom start (namedNodes op.address)⟩
      ⟨operationNameStates, Sketch.operatingFrom start op⟩ :=
  Leads.of_skip
    (fun _ _ _ h => walk_gaps_of_skip
      (fun _ => actionFor_gap (x := .operationSeparator) rfl) h _ _)
    fun _ _ _ => walk_operationName hname hroom _ _ _

/-- What can follow the name of an operation and its property list. -/
structure Listed (maxDepth : Int) (start : Nat) (op : Operation) (text : Text) (sc : Draft) :
    Prop where
  ended : Ended maxDepth text sc (Sketch.listedFrom start op)
  brace : Leads maxDepth start [['{']] sc ⟨headerListStates, Sketch.listedFrom start op⟩

/-- The character that opens a list after the name of the operation. -/
theorem leads_listOpening (start : Nat) {c : Char} {sc : Draft} (hc : ['(', '{'].contains c = true)
    (hsolid : isGap c = false)
    (hopen : ∀ before after : Text, handle ⟨maxDepth, before, c :: after⟩
      ⟨operationNameStates, Sketch.operatingFrom start op⟩ = some sc) :
    Leads maxDepth start [[c]] ⟨operationNameStates, Sketch.operatingFrom start op⟩ sc :=
  Leads.of_skip (fun _ _ _ hgaps => walk_gaps_of_following
      (fun _ => actionFor_gap (x := .operationName) rfl) hc hsolid hgaps _ _)
    fun before _ _ => walk_cons_of (hopen before _)

/-- A property list, if there is one. -/
theorem leads_propertyTokens (start : Nat) (hname : op.name.isEmpty = false)
    (hproperties : (saidProperties (op.properties.getD [])).all (Said.isProperty maxDepth) = true)
    (hroom : addressStates.length < maxDepth) :
    ∃ sc, Leads maxDepth start (propertyTokens op.properties)
        ⟨operationNameStates, Sketch.operatingFrom start op⟩ sc ∧
      ∀ before text, Spaced (propertyTokens op.properties) text →
        Listed maxDepth start op (before ++ text) sc := by
  have hroom' : commandStates.length < maxDepth := Int.lt_trans (by decide) hroom
  have hdone := Sketch.operationNameDone_operatingFrom start hname
  obtain ⟨address, name, properties, headers⟩ := op
  cases properties with
  | none =>
    refine ⟨⟨operationNameStates, Sketch.operatingFrom start ⟨address, name, none, headers⟩⟩,
      fun _ text _ _ htext => ?_, fun before text _ => ⟨?_, ?_⟩⟩
    · cases htext
      rfl
    · have hended : Ended maxDepth (before ++ text)
          ⟨operationNameStates, Sketch.operatingFrom start ⟨address, name, none, headers⟩⟩ _ :=
        ended_operationName hroom'
      rw [hdone] at hended
      exact hended
    · refine leads_listOpening start rfl rfl fun before after => ?_
      rw [handle_operationName_brace rfl hroom, hdone]
      rfl
  | some items =>
    have hparenthesis : Leads maxDepth start [['(']]
        ⟨operationNameStates, Sketch.operatingFrom start ⟨address, name, some items, headers⟩⟩
        ⟨propertyListStates,
          { Sketch.addressedFrom start (namedNodes address) with
            operation := some name, hasPropertyList := true, inPropertyList := true }⟩ := by
      refine leads_listOpening start rfl rfl fun before after => ?_
      rw [handle_operationName_parenthesis rfl hroom, hdone]
    have hlist : Leads maxDepth start (listTokens ',' ')' items)
        ⟨propertyListStates,
          { Sketch.addressedFrom start (namedNodes address) with
            operation := some name, hasPropertyList := true, inPropertyList := true }⟩ _ :=
      leads_properties rfl rfl hproperties hroom'
    refine ⟨_, hparenthesis.append hlist, fun before text htext => ⟨?_, ?_⟩⟩
    · obtain ⟨front, rfl⟩ :=
        @Spaced.exists_concat (['('] :: [[',']].intercalate (items.map itemTokens)) _ _ htext
      rw [← List.append_assoc]
      exact ended_list hroom' rfl rfl
    · refine Leads.of_skip (fun gaps before after h => walk_gaps_of_following
        (fun _ => actionFor_gap (x := .address) rfl) rfl rfl h _ _) fun before after _ => ?_
      rw [walk_cons_of (handle_address_brace rfl hroom)]
      rfl

/-- A header list, if there is one. -/
theorem leads_headerTokens {before : Text}
    (hheaders : (op.headers.getD []).all (isHeader maxDepth) = true)
    (hkeys : ((op.headers.getD []).map Prod.fst).Nodup)
    (hroom : commandStates.length < maxDepth) (hlisted : Listed maxDepth start op before sc) :
    ∃ sc', Leads maxDepth start (headerTokens op.headers) sc sc' ∧
      ∀ text, Spaced (headerTokens op.headers) text →
        Ended maxDepth (before ++ text) sc' (Sketch.operatedFrom start op) := by
  obtain ⟨address, name, properties, headers⟩ := op
  cases headers with
  | none =>
    refine ⟨sc, fun _ text _ _ htext => ?_, fun text htext => ?_⟩
    · cases htext
      rfl
    · cases htext
      rw [List.append_nil]
      exact hlisted.ended
  | some items =>
    refine ⟨_, hlisted.brace.append (leads_headers rfl hheaders hkeys hroom),
      fun text htext => ?_⟩
    obtain ⟨front, rfl⟩ :=
      @Spaced.exists_concat (['{'] :: [[';']].intercalate (items.map itemTokens)) _ _ htext
    rw [← List.append_assoc]
    exact ended_list hroom rfl rfl

end Draft

namespace Operation

open Draft

variable {maxDepth : Int} {op : Operation} {text gaps : Text}

/-- A legible operation is read as it is written, whatever gaps stand between its tokens. -/
theorem read_tokens (hop : op.isLegible maxDepth = true) (htext : Spaced op.tokens text)
    (hgaps : gaps.all isGap = true) :
    ∃ start, Scene.read grammar Sketch.react maxDepth .command (text ++ gaps) {} =
      some (Sketch.operatedFrom start op) := by
  simp only [isLegible, Bool.and_eq_true, decide_eq_true_eq] at hop
  obtain ⟨⟨⟨⟨⟨hroom, hnodes⟩, hname⟩, hproperties⟩, hheaders⟩, hkeys⟩ := hop
  have hroom₃ : operationStates.length < maxDepth := Int.lt_trans (by decide) hroom
  have hroom₂ : addressStates.length < maxDepth := Int.lt_trans (by decide) hroom₃
  have hroom₁ : commandStates.length < maxDepth := Int.lt_trans (by decide) hroom₂
  obtain ⟨front, rest, rfl, hfront, hrest⟩ := htext.split
  obtain ⟨name, lists, rfl, hnameText, hlists⟩ := hrest.split
  obtain ⟨properties, headers, rfl, hpropertyText, hheaderText⟩ := hlists.split
  obtain ⟨start, hstart, haddress⟩ := walk_addressTokens hroom hnodes hfront
    (name ++ (properties ++ headers) ++ gaps)
  refine ⟨start, ?_⟩
  obtain ⟨sc, hproperties, hlisted⟩ := leads_propertyTokens start
    (isEmpty_of_isOperationName hname) hproperties hroom₂
  obtain ⟨sc', hheaders, hended⟩ := leads_headerTokens hheaders hkeys hroom₁
    (hlisted (front ++ name) properties hpropertyText)
  have hlists := ((leads_operationName hname hroom₃).append (hproperties.append hheaders)) front
    (name ++ (properties ++ headers)) gaps hstart
    (hnameText.append (hpropertyText.append hheaderText))
  have hrun : (Draft.walk maxDepth [] (front ++ (name ++ (properties ++ headers)) ++ gaps) []
        ⟨commandStates, { format := some {} }⟩).bind
          (Draft.finish ⟨maxDepth, front ++ (name ++ (properties ++ headers)) ++ gaps, []⟩) =
      some ⟨[], Sketch.operatedFrom start op⟩ := by
    have hend := hended headers hheaderText gaps
      (front ++ (name ++ (properties ++ headers)) ++ gaps) hgaps
    rw [walk_append_of ((walk_append_of (by simpa using haddress)).trans (by simpa using hlists))]
    simpa using hend
  rw [read_command (Int.lt_trans (by decide) hroom₁), hrun]
  rfl

end Operation

/-! ## Words and closed values -/

section

variable {maxDepth : Int} {depth : Nat} {name value : Text} {stops : Text} {x : StateName}
  {outer : List StateName}

theorem trim_of_isWord (h : isWord name = true) : trim name = name :=
  trim_of_all (List.all_eq_true.2 fun d hd => by
    rw [isBlank_of_isWordChar (List.all_eq_true.1 (Bool.and_eq_true_iff.1 h).2 d hd)]
    rfl)

theorem isEmpty_of_isWord (h : isWord name = true) : name.isEmpty = false :=
  (Bool.not_eq_true' _).mp (Bool.and_eq_true_iff.1 h).1

/-- A word holds no special character. -/
theorem all_of_isWord {accepts : Char → Bool}
    (haccepts : ∀ d, isWordChar d = true → accepts d = true) (h : isWord name = true) :
    name.all accepts = true :=
  List.all_eq_true.2 fun d hd =>
    haccepts d (List.all_eq_true.1 (Bool.and_eq_true_iff.1 h).2 d hd)

theorem isOperationName_of_isWord (h : isWord name = true) : isOperationName name = true := by
  have hplain (d : Char) (hd : isWordChar d = true) :
      (!isGap d && d != '(' && d != '{') = true := by
    have hgap : isGap d = false := contains_of_isWordChar (by decide) hd
    have hopens : ['(', '{'].contains d = false := contains_of_isWordChar (by decide) hd
    simp_all
  have hall := all_of_isWord hplain h
  cases name with
  | nil => cases h
  | cons d name =>
    rw [List.all_cons, Bool.and_eq_true, Bool.and_eq_true, Bool.and_eq_true] at hall
    rw [isOperationName, hall.1.1.1, hall.2]
    rfl

/-- A name without separators and backslashes. -/
theorem isPropertyName_of_all (h : name.all (fun d => ! ['\\', '=', ',', ')'].contains d) = true) :
    isPropertyName name = true := by
  induction name using isPropertyName.induct with
  | case1 => rfl
  | case2 d => simp_all [isPropertyName]
  | case3 e name ih => cases h
  | case4 d e name hmark ih =>
    rw [List.all_cons, Bool.and_eq_true] at h
    rw [isPropertyName, if_neg hmark, ih h.2]
    simp_all

theorem isPropertyName_of_isWord (h : isWord name = true) : isPropertyName name = true :=
  isPropertyName_of_all (all_of_isWord
    (fun d hd => by rw [contains_of_isWordChar (by decide) hd]; rfl) h)

theorem isHeaderChar_of_isWordChar {d : Char} (h : isWordChar d = true) : isHeaderChar d = true := by
  have hgap : isGap d = false := contains_of_isWordChar (by decide) h
  rw [isHeaderChar, hgap, contains_of_isWordChar (by decide) h]
  rfl

/-- A closed text ends where the value ends. -/
theorem endsValue_of_closed (hx : HoldsValue stops x)
    (hescapes : grammar.escapesIn (x :: outer) = true) (h : Closed stops depth value)
    (hroom : (x :: outer).length + (depth : Int) ≤ maxDepth) :
    endsValue maxDepth (x :: outer) false value = true :=
  Spelled.endsValue_of_scan (scan_of_closed hx hescapes h hroom)

/-- A property with a word for its name and a closed value. -/
theorem isProperty_of_closed (hname : isWord name = true) (hvalue : Closed [',', ')'] depth value)
    (htrim : trim value = value) (hroom : (depth : Int) + 5 ≤ maxDepth) :
    Said.isProperty maxDepth ⟨some name, some value, true⟩ = true := by
  have hends : endsValue maxDepth propertyValueStates false value = true :=
    endsValue_of_closed .propertyValue rfl hvalue (by simp; omega)
  have hstates : propertyStates.length < maxDepth := by simp; omega
  simp only [Said.isProperty, isPropertyName_of_isWord hname, isEmpty_of_isWord hname,
    trim_of_isWord hname, htrim, hends, decide_eq_true hstates]
  rfl

/-- A header with a word for its name and a closed value. -/
theorem isHeader_of_closed (hname : isWord name = true) (hvalue : Closed [';', '}'] depth value)
    (hne : value.isEmpty = false) (htrim : trim value = value)
    (hroom : (depth : Int) + 5 ≤ maxDepth) : isHeader maxDepth (name, value) = true := by
  have hends : endsValue maxDepth headerValueStates false value = true :=
    endsValue_of_closed .headerValue rfl hvalue (by simp; omega)
  have hstates : headerStates.length < maxDepth := by simp; omega
  have hbrace : (name.head? != some '{') = true := by
    rw [bne_iff_ne]
    intro hhead
    have hmem : '{' ∈ name := List.mem_of_mem_head? hhead
    exact absurd (List.all_eq_true.1 (Bool.and_eq_true_iff.1 hname).2 _ hmem) (by decide)
  simp only [isHeader, all_of_isWord (fun _ => isHeaderChar_of_isWordChar) hname,
    isEmpty_of_isWord hname, hbrace, trim_of_isWord hname, htrim, hne, hends,
    decide_eq_true hstates]
  rfl

end

/-! ## Operations on a line -/

namespace Command

/-- The command says what the operation says, and has no other arguments. -/
structure Says (c : Command) (op : Operation) : Prop where
  address : c.address = namedNodes op.address
  operation : c.operation = some op.name
  arguments : c.arguments.map Argument.said = saidProperties (op.properties.getD [])
  headers : c.headers = op.headers.getD []

end Command

namespace Operation

variable {settings : Settings} {op : Operation} {text gaps : Text}

/-- A legible operation is read as it is written, whatever gaps stand between its tokens. -/
theorem says_of_isLegible (hplain : settings.substitutes = false)
    (hop : op.isLegible settings.maxDepth = true) (htext : Spaced op.tokens text)
    (hgaps : gaps.all isGap = true) :
    ∃ d, Command.read settings true .command [] (some (text ++ gaps)) = .ok d ∧ d.Says op := by
  obtain ⟨start, hread⟩ := read_tokens hop htext hgaps
  have hsolid : isBlankText (text ++ gaps) = false := by
    have hcolon : ':' ∈ text :=
      htext.mem (show [':'] ∈ op.tokens by simp [tokens]) (List.mem_singleton_self _)
    rw [Bool.eq_false_iff]
    intro hblank
    exact absurd (List.all_eq_true.1 hblank ':' (List.mem_append_left _ hcolon)) (by decide)
  have hline := Command.read_command_of_solid hplain hsolid
  rw [hread] at hline
  obtain ⟨d, hd, hsketch⟩ := Command.exists_of_toOption hline
  exact ⟨d, hd, congrArg Sketch.address hsketch, congrArg Sketch.operation hsketch,
    congrArg Sketch.arguments hsketch, congrArg Sketch.headers hsketch⟩

/-- A legible operation is read as it is written. -/
theorem says_flatten (hplain : settings.substitutes = false)
    (hop : op.isLegible settings.maxDepth = true) :
    ∃ d, Command.read settings true .command [] (some op.tokens.flatten) = .ok d ∧ d.Says op := by
  have hgaps : List.all ([] : Text) isGap = true := rfl
  have hread := says_of_isLegible hplain hop (Spaced.flatten op.tokens) hgaps
  rwa [List.append_nil] at hread

/-- The operation consists of words and of nodes with a type and a name, and its headers have names
of their own. -/
def isPlain (op : Operation) : Bool :=
  op.address.all (fun n => !n.1.isEmpty && !n.2.isEmpty) && isWord op.name &&
    (op.properties.getD []).all (fun item => isWord item.1 && isWord item.2) &&
    (op.headers.getD []).all (fun item => isWord item.1 && isWord item.2) &&
    decide ((op.headers.getD []).map Prod.fst).Nodup

theorem isLegible_of_isPlain {maxDepth : Int} (hroom : 5 ≤ maxDepth) (h : op.isPlain = true) :
    op.isLegible maxDepth = true := by
  simp only [isPlain, Bool.and_eq_true] at h
  obtain ⟨⟨⟨⟨hnodes, hname⟩, hproperties⟩, hheaders⟩, hkeys⟩ := h
  have hstates : quotesStates.length < maxDepth := by simp; omega
  have hproperty : (saidProperties (op.properties.getD [])).all (Said.isProperty maxDepth) =
      true := by
    rw [saidProperties, List.all_map]
    refine List.all_eq_true.2 fun item hitem => ?_
    have hwords := Bool.and_eq_true_iff.1 (List.all_eq_true.1 hproperties item hitem)
    exact isProperty_of_closed hwords.1 (closed_of_isWord rfl hwords.2) (trim_of_isWord hwords.2)
      (by simpa using hroom)
  have hheader : (op.headers.getD []).all (isHeader maxDepth) = true := by
    refine List.all_eq_true.2 fun item hitem => ?_
    have hwords := Bool.and_eq_true_iff.1 (List.all_eq_true.1 hheaders item hitem)
    exact isHeader_of_closed hwords.1 (closed_of_isWord rfl hwords.2) (isEmpty_of_isWord hwords.2)
      (trim_of_isWord hwords.2) (by simpa using hroom)
  simp only [isLegible, decide_eq_true hstates, hnodes, isOperationName_of_isWord hname, hproperty,
    hheader, hkeys, Bool.and_self]

/-- An operation that consists of words says on a line what it says by itself, whatever gaps stand
between its tokens. -/
theorem says_of_isPlain (hplain : settings.substitutes = false) (hroom : 5 ≤ settings.maxDepth)
    (hop : op.isPlain = true) (htext : Spaced op.tokens text) (hgaps : gaps.all isGap = true) :
    ∃ d, Command.read settings true .command [] (some (text ++ gaps)) = .ok d ∧ d.Says op :=
  says_of_isLegible hplain (isLegible_of_isPlain hroom hop) htext hgaps

theorem says_of_isPlain_of_quoted :
    ∃ d, Command.read {} true .command []
        (some (" / \"a b\" =\t\"c\\\"/\" : op ( x= 1 ,y =z) \x7b h = v-1; k=w \x7d".toList ++
          " ".toList)) = .ok d ∧
      d.Says {
        address := [("a b".toList, "c\"/".toList)], name := "op".toList
        properties := some [("x".toList, "1".toList), ("y".toList, "z".toList)]
        headers := some [("h".toList, "v-1".toList), ("k".toList, "w".toList)] } := by
  refine says_of_isPlain rfl (by decide) (by decide +kernel)
    (@Spaced.of_pairs _ _
      [(" ".toList, "/".toList), (" ".toList, "\"a b\"".toList), (" ".toList, "=".toList),
        ("\t".toList, "\"c\\\"/\"".toList), (" ".toList, ":".toList), (" ".toList, "op".toList),
        (" ".toList, "(".toList), (" ".toList, "x".toList), ([], "=".toList),
        (" ".toList, "1".toList), (" ".toList, ",".toList), ([], "y".toList),
        (" ".toList, "=".toList), ([], "z".toList), ([], ")".toList), (" ".toList, "\x7b".toList),
        (" ".toList, "h".toList), (" ".toList, "=".toList), (" ".toList, "v-1".toList),
        ([], ";".toList), (" ".toList, "k".toList), ([], "=".toList), ([], "w".toList),
        (" ".toList, "\x7d".toList)] ?_ ?_ ?_) ?_
  all_goals decide +kernel

end Operation
end CommandLine
