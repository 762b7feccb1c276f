/-
# `CommandLine.Proofs.OperationText` — an operation and its lists written and read again

After its address an operation has a name, a property list and a header list.  For each of the
three there is a decidable condition on what is written (`isOperationName`, `Said.isProperty`,
`isHeader`) and a walk along the written text, item by item.

The walks leave open what follows the operation.  After a name, or after a list, a gap ends the
operation only if the next character does not begin another part of it
(`handle_operationName_gap`, `handle_address_gap`).
-/
import CommandLine.Proofs.AddressText

namespace CommandLine

open Text

/-! ## Names of operations -/

/-- The states that are active after the `:` of an address. -/
abbrev operationStates : List StateName := .operationSeparator :: addressStates

/-- The states that are active in the name of an operation. -/
abbrev operationNameStates : List StateName := .operationName :: operationStates

/-- The text can be the name of an operation. -/
def isOperationName : Text → Bool
  | [] => false
  | d :: name => !isGap d && name.all fun e => !isGap e && e != '(' && e != '{'

theorem isEmpty_of_isOperationName {name : Text} (h : isOperationName name = true) :
    name.isEmpty = false := by
  cases name with
  | nil => cases h
  | cons _ _ => rfl

/-- The sketch of a line that has an address and the name of an operation behind it. -/
def Sketch.operated (address : List Node) (name : Text) : Sketch :=
  { addressed address with operation := some name }

theorem actionFor_operationName (d : Char) :
    (grammar .operationName).actionFor [d] =
      if d = '(' then .chain [.leave, .enter .propertyList]
      else if d = '{' then .chain [.leave, .enter .headerList]
      else if isGap d then .besideSeparator ['(', '{'] [] .leave else .content := by
  rw [State.actionFor_singleton]
  simp only [grammar, Grammar.operationName, State.gapAction, lookup_upon, List.lookup_nil]
  split
  · rfl
  · split <;> rfl

namespace Draft

open StateName

variable {maxDepth : Int} {p : Spot} {n : Nat} {d : Char} {k k' : Sketch} {name : Text}

/-- The first character of the name of an operation. -/
theorem handle_operationSeparator (hd : p.character? = some d) (hgap : isGap d = false)
    (hroom : operationStates.length < p.maxDepth) :
    handle p ⟨operationStates, k⟩ = some ⟨operationNameStates, k.fresh.append [d]⟩ := by
  have haction : (grammar .operationSeparator).actionFor [d] = .enter .operationName := by
    rw [State.actionFor_singleton, hgap]
    rfl
  rw [handle_cons hd, haction, act_enter hroom rfl]
  exact act_content hd

theorem walk_operationName_chars
    (hname : name.all (fun e => !isGap e && e != '(' && e != '{') = true)
    (before after : Text) (k : Sketch) :
    walk maxDepth before name after ⟨operationNameStates, k⟩ =
      some ⟨operationNameStates, k.append name⟩ := by
  refine walk_content (fun d hd => ?_) hname before after k
  simp only [Bool.and_eq_true, Bool.not_eq_true', bne_iff_ne] at hd
  obtain ⟨⟨hgap, hparenthesis⟩, hbrace⟩ := hd
  rw [actionFor_operationName, if_neg hparenthesis, if_neg hbrace, hgap,
    if_neg Bool.false_ne_true]

/-- The name of an operation is read as it is written. -/
theorem walk_operationName (hname : isOperationName name = true)
    (hroom : operationStates.length < maxDepth) (before after : Text) (k : Sketch) :
    walk maxDepth before name after ⟨operationStates, k⟩ =
      some ⟨operationNameStates, { k.fresh with buffer := name }⟩ := by
  cases name with
  | nil => cases hname
  | cons d name =>
    rw [isOperationName, Bool.and_eq_true, Bool.not_eq_true'] at hname
    rw [walk_cons_of (handle_operationSeparator rfl hname.1 hroom),
      walk_operationName_chars hname.2]
    rfl

/-- The name of an operation is left. -/
theorem leave_operationName (hd : p.character? = some d)
    (hroom : commandStates.length < p.maxDepth) :
    act p (n + 7) .leave ⟨operationNameStates, k⟩ =
      if isGap d then some ⟨argumentStates commandStates, k.operationNameDone⟩
      else some ⟨addressStates, k.operationNameDone⟩ := by
  rw [act_leave rfl]
  show act p (n + 6) .leave ⟨operationStates, k.operationNameDone⟩ = _
  rw [act_leave rfl]
  exact return_address hd hroom

/-- A gap after the name of an operation, unless a list follows. -/
theorem handle_operationName_gap (hd : p.character? = some d) (hgap : isGap d = true)
    (hroom : commandStates.length < p.maxDepth)
    (hfollows : p.isBesideSeparator ['(', '{'] [] = false) :
    handle p ⟨operationNameStates, k⟩ =
      some ⟨argumentStates commandStates, k.operationNameDone⟩ := by
  have haction : (grammar .operationName).actionFor [d] =
      .besideSeparator ['(', '{'] [] .leave := by
    rw [actionFor_operationName, if_neg (by rintro rfl; cases hgap),
      if_neg (by rintro rfl; cases hgap), if_pos hgap]
  rw [handle_cons hd, haction, act_besideSeparator, hfollows, if_neg Bool.false_ne_true,
    leave_operationName hd hroom, if_pos hgap]

/-- The line ends after the name of an operation. -/
theorem finish_operationName (hrest : p.rest = []) :
    finish p ⟨operationNameStates, k⟩ = some ⟨[], k.operationNameDone⟩ := by
  have hleave : leave p ⟨operationNameStates, k⟩ =
      some ⟨addressStates, k.operationNameDone⟩ := by
    rw [leave, act_leave rfl]
    show act p 1000 .leave ⟨operationStates, k.operationNameDone⟩ = _
    rw [act_leave rfl]
    exact return_address_end hrest
  exact finish_of_unwinds (Unwinds.leaving rfl hleave (by simp) (unwinds_address hrest)) rfl rfl

/-! ## Lists -/

/-- The character that ends a value in an item of a list ends the item. -/
theorem handle_itemEnd {x y z : StateName} {outer : List StateName} {ends : Text}
    (hd : p.character? = some d) (hvalue : (grammar x).actionFor [d] = .leave)
    (hitem : (grammar y).onReturn = .leaveOn ends) (hends : ends.contains d = true)
    (hleaving : Sketch.react p (.leaving x) (x :: y :: z :: outer) k = some k)
    (hdone : Sketch.react p (.leaving y) (y :: z :: outer) k = some k') :
    handle p ⟨x :: y :: z :: outer, k⟩ = act p 998 (grammar z).onReturn ⟨z :: outer, k'⟩ := by
  rw [handle_cons hd, hvalue, act_leave hleaving, hitem, act_leaveOn, hd, Option.any_some, hends,
    if_pos rfl, act_leave hdone]

/-! ### Properties -/

end Draft

/-- The states that are active in a property list. -/
abbrev propertyListStates : List StateName := .propertyList :: addressStates

/-- The states that are active in a property. -/
abbrev propertyStates : List StateName := .property :: propertyListStates

/-- The states that are active in the value of a property. -/
abbrev propertyValueStates : List StateName := .propertyValue :: propertyStates

/-- The text stands for itself in the name of a property.  A separator ends the name even after a
backslash. -/
def isPropertyName : Text → Bool
  | [] => true
  | [d] => d != '\\' && !(['=', ',', ')'].contains d)
  | d :: e :: name =>
    if d = '\\' then !([',', ')'].contains e) && isPropertyName name
    else !(['=', ',', ')'].contains d) && isPropertyName (e :: name)

theorem isPropertyName_cons {d : Char} {name : Text} (h : isPropertyName (d :: name) = true) :
    d ≠ '=' ∧ d ≠ ',' ∧ d ≠ ')' := by
  cases name with
  | nil => simp_all [isPropertyName]
  | cons e name =>
    rw [isPropertyName] at h
    split at h
    · next hmark =>
      subst hmark
      decide
    · simp_all

namespace Argument.Said

/-- The argument is a property that is read as it is written. -/
def isProperty (maxDepth : Int) (a : Said) : Bool :=
  a.inPropertyList &&
    match a.name, a.value with
    | some name, some value =>
      isPropertyName name && !name.isEmpty && trim name = name && trim value = value &&
        propertyStates.length < maxDepth && endsValue maxDepth propertyValueStates false value
    | _, _ => false

theorem written_of_isProperty {maxDepth : Int} {a : Said} (h : a.isProperty maxDepth = true) :
    (({} : Format).argument? a.name a.value).isSome = true := by
  obtain ⟨name, value, inPropertyList⟩ := a
  match name, value with
  | none, none | none, some _ | some _, none => simp [isProperty] at h
  | some name, some value => rfl

end Argument.Said

theorem actionFor_propertyList (d : Char) :
    (grammar .propertyList).actionFor [d] =
      if d = ',' then .skip else if d = ')' then .leave
      else if isGap d then .skip else .enter .property := by
  rw [State.actionFor_singleton]
  simp only [grammar, Grammar.propertyList, State.gapAction, lookup_upon, List.lookup_nil]
  split
  · rfl
  · split <;> rfl

theorem actionFor_property (d : Char) :
    (grammar .property).actionFor [d] =
      if d = '=' then .enter .propertyValue else if d = ',' then .leave
      else if d = ')' then .leave else if d = '\\' then .escape .escape else .content := by
  rw [State.actionFor_singleton]
  show ((List.lookup [d] [upon '=' (.enter StateName.propertyValue), upon ',' .leave,
    upon ')' .leave, upon '\\' (.escape StateName.escape)]).getD
    (if isGap d then .content else .content)) = _
  rw [ite_self]
  simp only [lookup_upon, List.lookup_nil]
  split
  · rfl
  · split
    · rfl
    · split
      · rfl
      · split <;> rfl

namespace Draft

open StateName

variable {maxDepth : Int} {p : Spot} {n : Nat} {d : Char} {k k' : Sketch} {name : Text}

/-- A character of the name of a property. -/
theorem act_property (hd : p.character? = some d) (hequals : d ≠ '=') (hcomma : d ≠ ',')
    (hclosing : d ≠ ')') (hroom : propertyStates.length < p.maxDepth) :
    act p (n + 3) ((grammar .property).actionFor [d]) ⟨propertyStates, k⟩ =
      some ⟨if d = '\\' then escape :: propertyStates else propertyStates, k.append [d]⟩ := by
  rw [actionFor_property, if_neg hequals, if_neg hcomma, if_neg hclosing]
  split
  · show act p (n + 3) (.enter .escape) ⟨propertyStates, k⟩ = _
    rw [act_enter hroom rfl]
    exact act_content hd
  · exact act_content hd

theorem handle_property_char (hd : p.character? = some d) (hequals : d ≠ '=') (hcomma : d ≠ ',')
    (hclosing : d ≠ ')') (hroom : propertyStates.length < p.maxDepth) :
    handle p ⟨propertyStates, k⟩ =
      some ⟨if d = '\\' then escape :: propertyStates else propertyStates, k.append [d]⟩ := by
  rw [handle_cons hd, act_property (n := 997) hd hequals hcomma hclosing hroom]

/-- The first character of a property. -/
theorem handle_propertyList (hd : p.character? = some d) (hequals : d ≠ '=') (hcomma : d ≠ ',')
    (hclosing : d ≠ ')') (hgap : isGap d = false) (hroom : propertyStates.length < p.maxDepth) :
    handle p ⟨propertyListStates, k⟩ = handle p ⟨propertyStates, k.fresh⟩ := by
  have hroom' : propertyListStates.length < p.maxDepth := Int.lt_trans (by decide) hroom
  rw [handle_cons hd, actionFor_propertyList, if_neg hcomma, if_neg hclosing, hgap,
    if_neg Bool.false_ne_true, act_enter hroom' rfl,
    show (grammar .property).onEnter = .dispatch from rfl, act_dispatch hd,
    act_property hd hequals hcomma hclosing hroom,
    handle_property_char hd hequals hcomma hclosing hroom]

/-- The character after a backslash in the name of a property, unless it is a separator. -/
theorem handle_property_escape (hd : p.character? = some d)
    (hends : [',', ')'].contains d = false) :
    handle p ⟨escape :: propertyStates, k⟩ = some ⟨propertyStates, k.append [d]⟩ := by
  have haction : (grammar .escape).actionFor [d] = .contentAndLeave := by
    rw [State.actionFor_singleton]
    exact ite_self _
  have hreturn : (grammar .property).onReturn = .leaveOn [',', ')'] := rfl
  rw [handle_cons hd, haction, act_contentAndLeave hd, act_leave rfl, hreturn, act_leaveOn, hd,
    Option.any_some, hends, if_neg Bool.false_ne_true]

/-- The name of a property is taken in. -/
theorem walk_propertyName (hname : isPropertyName name = true)
    (hroom : propertyStates.length < maxDepth) (before after : Text) (k : Sketch) :
    walk maxDepth before name after ⟨propertyStates, k⟩ =
      some ⟨propertyStates, k.append name⟩ := by
  induction name using isPropertyName.induct generalizing before k with
  | case1 =>
    rw [Sketch.append_nil]
    rfl
  | case2 d =>
    simp only [isPropertyName, Bool.and_eq_true, bne_iff_ne, Bool.not_eq_true',
      List.contains_cons, List.contains_nil, Bool.or_false, Bool.or_eq_false_iff,
      beq_eq_false_iff_ne] at hname
    obtain ⟨hmark, hequals, hcomma, hclosing⟩ := hname
    have hd := handle_property_char (p := ⟨maxDepth, before, [d] ++ after⟩) (k := k) rfl hequals
      hcomma hclosing hroom
    rw [if_neg hmark] at hd
    rw [walk_cons_of hd]
    rfl
  | case3 e name ih =>
    rw [isPropertyName, if_pos rfl, Bool.and_eq_true, Bool.not_eq_true'] at hname
    have hmark := handle_property_char (p := ⟨maxDepth, before, '\\' :: (e :: name ++ after)⟩)
      (k := k) rfl (by decide) (by decide) (by decide) hroom
    rw [if_pos rfl] at hmark
    rw [walk_cons_of hmark, walk_cons_of (handle_property_escape rfl hname.1), ih hname.2]
    simp
  | case4 d e name hmark ih =>
    simp only [isPropertyName, if_neg hmark, Bool.and_eq_true, Bool.not_eq_true',
      List.contains_cons, List.contains_nil, Bool.or_false, Bool.or_eq_false_iff,
      beq_eq_false_iff_ne] at hname
    obtain ⟨⟨hequals, hcomma, hclosing⟩, hname⟩ := hname
    have hd := handle_property_char (p := ⟨maxDepth, before, d :: (e :: name ++ after)⟩) (k := k)
      rfl hequals hcomma hclosing hroom
    rw [if_neg hmark] at hd
    rw [walk_cons_of hd, ih hname]
    simp

/-- The name of a property from its first character on. -/
theorem walk_property_start (hname : isPropertyName name = true) (hne : name.isEmpty = false)
    (htrim : trim name = name) (hroom : propertyStates.length < maxDepth)
    (before after : Text) (k : Sketch) :
    walk maxDepth before name after ⟨propertyListStates, k⟩ =
      some ⟨propertyStates, { k.fresh with buffer := name }⟩ := by
  have hwalk := walk_propertyName hname hroom before after k.fresh
  cases name with
  | nil => cases hne
  | cons d name =>
    have hgap : isGap d = false := isGap_of_trim htrim
    obtain ⟨hequals, hcomma, hclosing⟩ := isPropertyName_cons hname
    rw [walk_cons, handle_propertyList rfl hequals hcomma hclosing hgap hroom, ← walk_cons, hwalk]
    rfl

/-- The `=` after the name of a property. -/
theorem handle_property_equals (hd : p.character? = some '=')
    (hroom : propertyStates.length < p.maxDepth) :
    handle p ⟨propertyStates, k⟩ = some ⟨propertyValueStates, k.named⟩ := by
  have haction : (grammar .property).actionFor ['='] = .enter .propertyValue := rfl
  rw [handle_cons hd, haction, act_enter hroom rfl]
  rfl

/-- A property list is closed. -/
theorem leave_propertyList (hd : p.character? = some d) (hgap : isGap d = false)
    (hroom : commandStates.length < p.maxDepth) :
    act p (n + 6) .leave ⟨propertyListStates, k⟩ =
      some ⟨addressStates, { k with inPropertyList := false }⟩ := by
  have hreact : Sketch.react p (.leaving .propertyList) propertyListStates k =
      some { k with inPropertyList := false } := by
    simp [Sketch.react, Sketch.leaving, Spot.isEmpty_rest hd]
  rw [act_leave hreact, show (grammar .address).onReturn = .leaveOnGap from rfl,
    return_address hd hroom, hgap, if_neg Bool.false_ne_true]

/-- The `,` or `)` after the value of a property. -/
theorem handle_propertyValue_end {name : Text} (hd : p.character? = some d)
    (hends : d = ',' ∨ d = ')') (hname : k.name = some name) (hne : name.isEmpty = false)
    (hroom : commandStates.length < p.maxDepth) :
    handle p ⟨propertyValueStates, k⟩ =
      some (if d = ',' then
          ⟨propertyListStates, (k.addArgument (some name) (some (trim k.buffer))).fresh⟩
        else ⟨addressStates,
          { (k.addArgument (some name) (some (trim k.buffer))).fresh with
            inPropertyList := false }⟩) := by
  have hdone : Sketch.react p (.leaving .property) propertyStates k =
      some (k.addArgument (some name) (some (trim k.buffer))).fresh := by
    cases name with
    | nil => cases hne
    | cons e name => simp [Sketch.react, Sketch.leaving, Sketch.propertyDone, hname]
  have hend (haction : (grammar .propertyValue).actionFor [d] = .leave)
      (hcontains : [',', ')'].contains d = true) :=
    handle_itemEnd (y := .property) (z := .propertyList) hd haction rfl hcontains rfl hdone
  have hreturn : (grammar .propertyList).onReturn = .leaveOn [')'] := rfl
  rcases hends with rfl | rfl
  · rw [hend rfl rfl, hreturn, act_leaveOn, hd, if_neg (by decide), if_pos rfl]
  · rw [hend rfl rfl, hreturn, act_leaveOn, hd, if_pos (by decide), if_neg (by decide),
      leave_propertyList hd rfl hroom]

/-- A property and the character after it. -/
theorem walk_property {a : Argument.Said} (hk : k.inPropertyList = true)
    (ha : a.isProperty maxDepth = true) (hends : d = ',' ∨ d = ')')
    (before rest after : Text) :
    walk maxDepth before (a.text ++ d :: rest) after ⟨propertyListStates, k⟩ =
      walk maxDepth (before ++ a.text ++ [d]) rest after
        (if d = ',' then ⟨propertyListStates, k.having [a]⟩
          else ⟨addressStates, { k.having [a] with inPropertyList := false }⟩) := by
  obtain ⟨name, value, inPropertyList⟩ := a
  rw [Argument.Said.isProperty, Bool.and_eq_true] at ha
  obtain ⟨rfl, ha⟩ := ha
  match name, value with
  | none, value => cases ha
  | some name, none => cases ha
  | some name, some value =>
    simp only [Bool.and_eq_true, Bool.not_eq_true', decide_eq_true_eq] at ha
    obtain ⟨⟨⟨⟨⟨hname, hne⟩, htrim⟩, hvalue⟩, hroom⟩, hends'⟩ := ha
    obtain ⟨active, hscan, hactive⟩ := (Option.any_eq_true _ _).1 hends'
    cases eq_of_beq hactive
    have hroom' : commandStates.length < maxDepth := Int.lt_trans (by decide) hroom
    have htext : Argument.Said.text ⟨some name, some value, true⟩ = name ++ '=' :: value := by
      simp [Argument.Said.text, Format.argument?]
    rw [htext, List.append_assoc, List.cons_append,
      walk_append_of (walk_property_start hname hne htrim hroom _ _ _),
      walk_cons_of (handle_property_equals rfl hroom), walk_append_of (walk_of_scan _ _ hscan)]
    have hend := handle_propertyValue_end
      (p := ⟨maxDepth, before ++ name ++ ['='] ++ value, d :: (rest ++ after)⟩)
      (k := ({ k.fresh with buffer := name } : Sketch).named.append value) rfl hends
      (congrArg some htrim) hne hroom'
    have hdone : ((({ k.fresh with buffer := name } : Sketch).named.append value).addArgument
        (some name) (some (trim value))).fresh = k.having [⟨some name, some value, true⟩] := by
      rw [hvalue, ← hk]
      rfl
    rw [walk_cons_of hend,
      show (({ k.fresh with buffer := name } : Sketch).named.append value).buffer = value from rfl,
      hdone]
    simp only [List.append_assoc, List.cons_append, List.nil_append]

/-- The properties of a list are read as they are written. -/
theorem walk_properties {args : List Argument.Said} (hk : k.fresh = k)
    (hlist : k.inPropertyList = true) (hargs : args.all (Argument.Said.isProperty maxDepth) = true)
    (hroom : commandStates.length < maxDepth) (before after : Text) :
    walk maxDepth before ([','].intercalate (args.map Argument.Said.text) ++ [')']) after
        ⟨propertyListStates, k⟩ =
      some ⟨addressStates, { k.having args with inPropertyList := false }⟩ := by
  induction args generalizing before k with
  | nil =>
    have hhandle : handle ⟨maxDepth, before, ')' :: ([] ++ after)⟩ ⟨propertyListStates, k⟩ =
        some ⟨addressStates, { k with inPropertyList := false }⟩ :=
      (handle_cons rfl).trans (leave_propertyList (n := 994) rfl rfl hroom)
    rw [Sketch.having_nil hk]
    exact walk_cons_of hhandle
  | cons a args ih =>
    rw [List.all_cons, Bool.and_eq_true] at hargs
    cases args with
    | nil =>
      rw [show [','].intercalate ([a].map Argument.Said.text) = a.text from
        List.intercalate_singleton, walk_property hlist hargs.1 (.inr rfl)]
      rfl
    | cons b args =>
      have hnext := ih (k := k.having [a]) rfl hlist hargs.2 (before ++ a.text ++ [','])
      rw [Sketch.having_having] at hnext
      rw [List.map_cons, intercalate_cons a.text (by simp), List.append_assoc, List.append_assoc,
        List.singleton_append, walk_property hlist hargs.1 (.inl rfl), if_pos rfl, hnext]
      rfl

/-- The `(` after the name of an operation. -/
theorem handle_operationName_parenthesis (hd : p.character? = some '(')
    (hroom : addressStates.length < p.maxDepth) :
    handle p ⟨operationNameStates, k⟩ =
      some ⟨propertyListStates,
        { k.operationNameDone with hasPropertyList := true, inPropertyList := true }⟩ := by
  have haction : (grammar .operationName).actionFor ['('] =
      .chain [.leave, .enter .propertyList] := rfl
  have hroom' : commandStates.length < p.maxDepth := Int.lt_trans (by decide) hroom
  rw [handle_cons hd, haction, act_chain, leave_operationName hd hroom',
    if_neg (show ¬isGap '(' = true by decide), Option.bind_some, act_enter hroom rfl]
  rfl

end Draft

/-! ### Headers -/

/-- The states that are active in a header list. -/
abbrev headerListStates : List StateName := .headerList :: addressStates

/-- The states that are active in a header. -/
abbrev headerStates : List StateName := .header :: headerListStates

/-- The states that are active in the value of a header. -/
abbrev headerValueStates : List StateName := .headerValue :: headerStates

/-- The character stands for itself in the name of a header. -/
def isHeaderChar (d : Char) : Bool := !isGap d && !(['=', ';', '}'].contains d)

/-- The header is read as it is written. -/
def isHeader (maxDepth : Int) (header : Text × Text) : Bool :=
  header.1.all isHeaderChar && !header.1.isEmpty && header.1.head? != some '{' &&
    trim header.1 = header.1 && trim header.2 = header.2 && !header.2.isEmpty &&
    headerStates.length < maxDepth && endsValue maxDepth headerValueStates false header.2

/-- A header as it is written. -/
def headerText (header : Text × Text) : Text := header.1 ++ '=' :: header.2

theorem actionFor_headerList (d : Char) :
    (grammar .headerList).actionFor [d] =
      if d = '{' then .skip else if d = ';' then .skip else if d = '}' then .leave
      else if isGap d then .skip else .enter .header := by
  rw [State.actionFor_singleton]
  simp only [grammar, Grammar.headerList, State.gapAction, lookup_upon, List.lookup_nil]
  split
  · rfl
  · split
    · rfl
    · split <;> rfl

theorem isHeaderChar_iff {d : Char} :
    isHeaderChar d = true ↔ isGap d = false ∧ d ≠ '=' ∧ d ≠ ';' ∧ d ≠ '}' := by
  simp only [isHeaderChar, Bool.and_eq_true, Bool.not_eq_true', List.contains_cons,
    List.contains_nil, Bool.or_false, Bool.or_eq_false_iff, beq_eq_false_iff_ne]

theorem actionFor_header_of_isHeaderChar {d : Char} (hd : isHeaderChar d = true) :
    (grammar .header).actionFor [d] = .content := by
  obtain ⟨hgap, hequals, hnext, hclosing⟩ := isHeaderChar_iff.1 hd
  rw [State.actionFor_singleton, hgap]
  show ((List.lookup [d] [upon '=' (.enter StateName.headerValue), upon ';' .leave,
    upon '}' .leave]).getD .content) = _
  simp only [lookup_upon, List.lookup_nil, if_neg hequals, if_neg hnext, if_neg hclosing]
  rfl

namespace Draft

open StateName

variable {maxDepth : Int} {p : Spot} {n : Nat} {d : Char} {k k' : Sketch} {name : Text}

theorem walk_headerChars (hname : name.all isHeaderChar = true) (before after : Text)
    (k : Sketch) :
    walk maxDepth before name after ⟨headerStates, k⟩ = some ⟨headerStates, k.append name⟩ :=
  walk_content (fun _ => actionFor_header_of_isHeaderChar) hname before after k

/-- The name of a header. -/
theorem walk_headerName (hname : name.all isHeaderChar = true) (hne : name.isEmpty = false)
    (hbrace : name.head? ≠ some '{') (hroom : headerListStates.length < maxDepth)
    (before after : Text) (k : Sketch) :
    walk maxDepth before name after ⟨headerListStates, k⟩ =
      some ⟨headerStates, { k.fresh with buffer := name }⟩ := by
  cases name with
  | nil => cases hne
  | cons d name =>
    rw [List.all_cons, Bool.and_eq_true] at hname
    have hstart : handle ⟨maxDepth, before, d :: (name ++ after)⟩ ⟨headerListStates, k⟩ =
        some ⟨headerStates, k.fresh.append [d]⟩ := by
      obtain ⟨hgap, -, hnext, hclosing⟩ := isHeaderChar_iff.1 hname.1
      rw [handle_cons rfl, actionFor_headerList, if_neg (by simpa using hbrace), if_neg hnext,
        if_neg hclosing, hgap, if_neg Bool.false_ne_true, act_enter hroom rfl,
        show (grammar .header).onEnter = .dispatch from rfl, act_dispatch rfl,
        actionFor_header_of_isHeaderChar hname.1, act_content rfl]
    rw [walk_cons_of hstart, walk_headerChars hname.2]
    rfl

/-- The `=` after the name of a header. -/
theorem handle_header_equals (hd : p.character? = some '=')
    (hroom : headerStates.length < p.maxDepth) :
    handle p ⟨headerStates, k⟩ = some ⟨headerValueStates, k.named⟩ := by
  have haction : (grammar .header).actionFor ['='] = .enter .headerValue := rfl
  rw [handle_cons hd, haction, act_enter hroom rfl]
  rfl

/-- The `;` or `}` after the value of a header. -/
theorem handle_headerValue_end (hd : p.character? = some d) (hends : d = ';' ∨ d = '}')
    (hname : k.name = some name) (hne : name.isEmpty = false)
    (hvalue : (trim k.buffer).isEmpty = false) (hroom : commandStates.length < p.maxDepth) :
    handle p ⟨headerValueStates, k⟩ =
      some ⟨if d = ';' then headerListStates else addressStates,
        { k with headers := Entries.insert name (trim k.buffer) k.headers }.fresh⟩ := by
  have hdone : Sketch.react p (.leaving .header) headerStates k =
      some { k with headers := Entries.insert name (trim k.buffer) k.headers }.fresh := by
    rw [Sketch.react, Sketch.leaving, Sketch.headerDone, hname]
    simp only [hne, hvalue, Bool.false_eq_true, if_false]
  have hend (haction : (grammar .headerValue).actionFor [d] = .leave)
      (hcontains : [';', '}'].contains d = true) :=
    handle_itemEnd (y := .header) (z := .headerList) hd haction rfl hcontains rfl hdone
  have hreturn : (grammar .headerList).onReturn = .leaveOn ['}'] := rfl
  rcases hends with rfl | rfl
  · rw [hend rfl rfl, hreturn, act_leaveOn, hd, if_neg (by decide), if_pos rfl]
  · rw [hend rfl rfl, hreturn, act_leaveOn, hd, if_pos (by decide), if_neg (by decide),
      act_leave rfl, show (grammar .address).onReturn = .leaveOnGap from rfl,
      return_address hd hroom, if_neg (show ¬isGap '}' = true by decide)]

/-- Gaps in a header list are skipped. -/
theorem handle_headerList_gap (hd : p.character? = some d) (hgap : isGap d = true) :
    handle p ⟨headerListStates, k⟩ = some ⟨headerListStates, k⟩ := by
  rw [handle_cons hd, actionFor_headerList, if_neg (by rintro rfl; cases hgap),
    if_neg (by rintro rfl; cases hgap), if_neg (by rintro rfl; cases hgap), if_pos hgap]
  rfl

/-- A header and the character after it. -/
theorem walk_header {header : Text × Text} (hheader : isHeader maxDepth header = true)
    (hends : d = ';' ∨ d = '}') (hnew : header.1 ∉ k.headers.map Prod.fst)
    (before rest after : Text) :
    walk maxDepth before (headerText header ++ d :: rest) after ⟨headerListStates, k⟩ =
      walk maxDepth (before ++ headerText header ++ [d]) rest after
        ⟨if d = ';' then headerListStates else addressStates,
          { k.fresh with headers := k.headers ++ [header] }⟩ := by
  obtain ⟨name, value⟩ := header
  simp only [isHeader, Bool.and_eq_true, Bool.not_eq_true', decide_eq_true_eq,
    bne_iff_ne] at hheader
  obtain ⟨⟨⟨⟨⟨⟨⟨hname, hne⟩, hbrace⟩, htrim⟩, hvalue⟩, hsolid⟩, hroom⟩, hends'⟩ := hheader
  obtain ⟨active, hscan, hactive⟩ := (Option.any_eq_true _ _).1 hends'
  cases eq_of_beq hactive
  have hroom' : commandStates.length < maxDepth := Int.lt_trans (by decide) hroom
  rw [headerText, List.append_assoc, List.cons_append,
    walk_append_of (walk_headerName hname hne hbrace (Int.lt_trans (Int.lt_succ _) hroom) _ _ _),
    walk_cons_of (handle_header_equals rfl hroom), walk_append_of (walk_of_scan _ _ hscan)]
  have hend := handle_headerValue_end
    (p := ⟨maxDepth, before ++ name ++ ['='] ++ value, d :: (rest ++ after)⟩)
    (k := ({ k.fresh with buffer := name } : Sketch).named.append value) rfl hends
    (congrArg some htrim) hne ((congrArg List.isEmpty hvalue).trans hsolid) hroom'
  have hbuffer : (({ k.fresh with buffer := name } : Sketch).named.append value).buffer = value :=
    rfl
  have hheaders : (({ k.fresh with buffer := name } : Sketch).named.append value).headers =
    k.headers := rfl
  rw [walk_cons_of hend, hbuffer, hvalue, hheaders, Entries.insert_of_notMem hnew]
  simp only [List.append_assoc, List.cons_append, List.nil_append]
  rfl

/-- The headers of a list are read as they are written. -/
theorem walk_headers {headers : List (Text × Text)} (hne : headers ≠ []) (hk : k.fresh = k)
    (hheaders : headers.all (isHeader maxDepth) = true)
    (hkeys : ((k.headers ++ headers).map Prod.fst).Nodup) (before after : Text) :
    walk maxDepth before ([';', ' '].intercalate (headers.map headerText) ++ ['}']) after
        ⟨headerListStates, k⟩ =
      some ⟨addressStates, { k with headers := k.headers ++ headers }⟩ := by
  induction headers generalizing before k with
  | nil => exact absurd rfl hne
  | cons header headers ih =>
    rw [List.all_cons, Bool.and_eq_true] at hheaders
    have hnew : header.1 ∉ k.headers.map Prod.fst := by
      rw [List.map_append, List.map_cons, List.nodup_append] at hkeys
      exact fun hmem => hkeys.2.2 _ hmem _ List.mem_cons_self rfl
    cases headers with
    | nil =>
      rw [show [';', ' '].intercalate ([header].map headerText) = headerText header from
        List.intercalate_singleton, walk_header hheaders.1 (.inr rfl) hnew, if_neg (by decide), hk]
      rfl
    | cons next headers =>
      have hgap : handle ⟨maxDepth, before ++ headerText header ++ [';'], ' ' ::
            ([';', ' '].intercalate ((next :: headers).map headerText) ++ ['}'] ++ after)⟩
          ⟨headerListStates, { k.fresh with headers := k.headers ++ [header] }⟩ =
            some ⟨headerListStates, { k.fresh with headers := k.headers ++ [header] }⟩ :=
        handle_headerList_gap rfl rfl
      have hnext := ih (k := { k.fresh with headers := k.headers ++ [header] })
        (List.cons_ne_nil _ _) rfl hheaders.2 (by simpa using hkeys)
        (before ++ headerText header ++ [';'] ++ [' '])
      rw [List.map_cons, intercalate_cons (headerText header) (by simp), List.append_assoc,
        List.append_assoc, List.cons_append, walk_header hheaders.1 (.inl rfl) hnew, if_pos rfl,
        List.singleton_append, walk_cons_of hgap, hnext, hk]
      simp

/-- The `{` after the name of an operation. -/
theorem handle_operationName_brace (hd : p.character? = some '{')
    (hroom : addressStates.length < p.maxDepth) :
    handle p ⟨operationNameStates, k⟩ = some ⟨headerListStates, k.operationNameDone⟩ := by
  have haction : (grammar .operationName).actionFor ['{'] =
      .chain [.leave, .enter .headerList] := rfl
  have hroom' : commandStates.length < p.maxDepth := Int.lt_trans (by decide) hroom
  rw [handle_cons hd, haction, act_chain, leave_operationName hd hroom',
    if_neg (show ¬isGap '{' = true by decide), Option.bind_some, act_enter hroom rfl]
  exact act_dispatch hd

/-- The `{` after a property list. -/
theorem handle_address_brace (hd : p.character? = some '{')
    (hroom : addressStates.length < p.maxDepth) :
    handle p ⟨addressStates, k⟩ = some ⟨headerListStates, k⟩ := by
  have haction : (grammar .address).actionFor ['{'] = .enter .headerList := rfl
  rw [handle_cons hd, haction, act_enter hroom rfl]
  exact act_dispatch hd

/-! ## The end of a list -/

/-- A gap after a list, unless a separator of the address stands on either side of it. -/
theorem handle_address_gap (hd : p.character? = some d) (hgap : isGap d = true)
    (hroom : commandStates.length < p.maxDepth)
    (hfollows : p.isBesideSeparator ['/', '=', ':', '{'] ['/', '='] = false) :
    handle p ⟨addressStates, k⟩ = some ⟨argumentStates commandStates, k⟩ := by
  have haction : (grammar .address).actionFor [d] =
      .besideSeparator ['/', '=', ':', '{'] ['/', '='] .leave := by
    rw [actionFor_address, if_neg (by rintro rfl; cases hgap), if_neg (by rintro rfl; cases hgap),
      if_neg (by rintro rfl; cases hgap), if_pos hgap]
  have hleave := return_address (n := 995) (k := k) hd hroom
  rw [act_leaveOnGap, hd, Option.any_some, if_pos hgap, if_pos hgap] at hleave
  rw [handle_cons hd, haction, act_besideSeparator, hfollows, if_neg Bool.false_ne_true, hleave]

theorem finish_address (hrest : p.rest = []) :
    finish p ⟨addressStates, k⟩ = some ⟨[], k⟩ :=
  finish_of_unwinds (unwinds_address hrest) rfl rfl

end Draft
end CommandLine
