/-
# `CommandLine.Proofs.ArgumentText` — an argument list written and read again

An argument is written as its name, its value, or both with a `=` between them.  It is *legible*
(`Said.isLegible`) if what is written is read as this argument: its name has no gap and no `=`, is
trimmed where a `=` follows, and its value closes all that it opens; at the end of the line a value
may also leave a part open whose end nobody waits for.

While a legible argument is being read, the text so far *spells* it: `Spelled` lists the places
where the states can then be, with what has been said.  Each lemma about an argument goes through
these places once.

    Spelled.walk         writing: the text of a legible argument leads to such a place
    Spelled.handle_gap   a gap there ends the argument
    Spelled.unwinds      so does the end of the line
    Spelled.start, step  reading: each character leads from one such place to another

Nothing here depends on the states around the list, as long as they let the line end (`Grounds`).
The arguments of a command are therefore covered as well.
-/
import CommandLine.Proofs.ValueText
import Mathlib.Data.List.DropRight

namespace CommandLine

open Text

/-! ## Actions of the argument states -/

theorem actionFor_argumentList (d : Char) :
    (grammar .argumentList).actionFor [d] =
      if d = '-' then .enter .argument else if d = '>' then .enter .outputTarget
      else if isGap d then .skip else .enter .argumentValue := by
  rw [State.actionFor_singleton]
  simp only [grammar, Grammar.argumentList, State.gapAction, lookup_upon, List.lookup_nil]
  split
  · rfl
  · split <;> rfl

theorem actionFor_argument (d : Char) :
    (grammar .argument).actionFor [d] =
      if d = '=' then .enter .nameValueSeparator else if isGap d then .leave else .content := by
  rw [State.actionFor_singleton]
  simp only [grammar, Grammar.argument, State.gapAction, lookup_upon, List.lookup_nil]
  split <;> rfl

theorem actionFor_nameValueSeparator (d : Char) :
    (grammar .nameValueSeparator).actionFor [d] =
      if isGap d then .leave else .enter .argumentValue := by
  rw [State.actionFor_singleton]
  rfl

theorem actionFor_argumentValue_of_isGap {d : Char} (hd : isGap d = true) :
    (grammar .argumentValue).actionFor [d] = .leave := by
  simp only [isGap, gapCharacters, List.contains_cons, List.contains_nil, Bool.or_false,
    Bool.or_eq_true, beq_iff_eq] at hd
  rcases hd with rfl | rfl | rfl | rfl | rfl | rfl <;> rfl

theorem staysInside_argumentValue {d : Char} (hd : isGap d = false) :
    ((grammar .argumentValue).actionFor [d]).staysInside = true := by
  have hall : Grammar.valueOpeners.all fun t => t.2.staysInside := rfl
  rw [State.actionFor_singleton, hd]
  show ((List.lookup [d] Grammar.valueOpeners).getD .content).staysInside = true
  cases haction : List.lookup [d] Grammar.valueOpeners with
  | none => rfl
  | some action =>
    obtain ⟨before, later, htable, -⟩ := List.lookup_eq_some_iff.1 haction
    exact List.all_eq_true.1 hall ([d], action)
      (htable ▸ List.mem_append_right _ List.mem_cons_self)

namespace Draft

open StateName

variable {p : Spot} {n : Nat} {d : Char} {outer : List StateName} {k : Sketch}

/-! ## What a character does -/

theorem handle_argumentList (hd : p.character? = some d) :
    handle p ⟨argumentList :: outer, k⟩ =
      if isGap d then some ⟨argumentList :: outer, k⟩
      else if p.maxDepth ≤ (argumentList :: outer).length then none
      else if d = '-' then some ⟨argument :: argumentList :: outer, k.fresh.append [d]⟩
      else if d = '>' then some ⟨outputTarget :: argumentList :: outer, k.fresh⟩
      else (inside p.maxDepth d (argumentValue :: argumentList :: outer)).map fun active =>
        ⟨active, { k.fresh with hasValue := true }.append [d]⟩ := by
  rw [handle_cons hd, actionFor_argumentList]
  by_cases hdash : d = '-'
  · subst hdash
    rw [if_pos rfl, if_neg (show ¬isGap '-' = true by decide), if_pos rfl]
    split
    · next hfull => exact act_enter_full hfull
    · next hroom =>
      rw [act_enter (Int.not_le.1 hroom) rfl]
      exact act_content hd
  by_cases htarget : d = '>'
  · subst htarget
    rw [if_neg hdash, if_pos rfl, if_neg (show ¬isGap '>' = true by decide), if_neg hdash,
      if_pos rfl]
    split
    · next hfull => exact act_enter_full hfull
    · next hroom =>
      rw [act_enter (Int.not_le.1 hroom) rfl]
      rfl
  rw [if_neg hdash, if_neg htarget, if_neg hdash, if_neg htarget]
  cases hgap : isGap d with
  | true => rfl
  | false =>
    rw [if_neg Bool.false_ne_true, if_neg Bool.false_ne_true]
    split
    · next hfull => exact act_enter_full hfull
    · next hroom =>
      rw [act_enter (Int.not_le.1 hroom) rfl]
      exact (act_dispatch hd).trans (act_of_staysInside hd (staysInside_argumentValue hgap))

theorem leave_argument : act p (n + 3) .leave ⟨argument :: argumentList :: outer, k⟩ =
    some ⟨argumentList :: outer, k.argumentDone⟩ :=
  act_leave rfl

theorem leave_nameValueSeparator :
    act p (n + 4) .leave ⟨nameValueSeparator :: argument :: argumentList :: outer, k⟩ =
      some ⟨argumentList :: outer, k.argumentDone⟩ :=
  (act_leave rfl).trans leave_argument

theorem leave_positional : act p (n + 3) .leave ⟨argumentValue :: argumentList :: outer, k⟩ =
    some ⟨argumentList :: outer, (k.addArgument none (some k.buffer)).fresh⟩ :=
  act_leave rfl

theorem leave_valued :
    act p (n + 5) .leave
        ⟨argumentValue :: nameValueSeparator :: argument :: argumentList :: outer, k⟩ =
      some ⟨argumentList :: outer, k.argumentDone⟩ :=
  (act_leave rfl).trans leave_nameValueSeparator

theorem leave_outputTarget :
    act p (n + 3) .leave ⟨outputTarget :: argumentList :: outer, k⟩ =
      some ⟨argumentList :: outer, { k with outputTarget := some (trim k.buffer) }.fresh⟩ :=
  act_leave rfl

theorem handle_argument (hd : p.character? = some d) :
    handle p ⟨argument :: argumentList :: outer, k⟩ =
      if d = '=' then
        if p.maxDepth ≤ (argument :: argumentList :: outer).length then none
        else some ⟨nameValueSeparator :: argument :: argumentList :: outer, k.named⟩
      else if isGap d then some ⟨argumentList :: outer, k.argumentDone⟩
      else some ⟨argument :: argumentList :: outer, k.append [d]⟩ := by
  rw [handle_cons hd, actionFor_argument]
  split
  · split
    · next hfull => exact act_enter_full hfull
    · next hroom =>
      rw [act_enter (Int.not_le.1 hroom) rfl]
      rfl
  · split
    · exact leave_argument
    · exact act_content hd

theorem handle_nameValueSeparator (hd : p.character? = some d) :
    handle p ⟨nameValueSeparator :: argument :: argumentList :: outer, k⟩ =
      if isGap d then some ⟨argumentList :: outer, k.argumentDone⟩
      else if p.maxDepth ≤ (nameValueSeparator :: argument :: argumentList :: outer).length
      then none
      else (inside p.maxDepth d
          (argumentValue :: nameValueSeparator :: argument :: argumentList :: outer)).map
        fun active => ⟨active, { k with hasValue := true }.append [d]⟩ := by
  rw [handle_cons hd, actionFor_nameValueSeparator]
  cases hgap : isGap d with
  | true => exact leave_nameValueSeparator
  | false =>
    rw [if_neg Bool.false_ne_true, if_neg Bool.false_ne_true]
    split
    · next hfull => exact act_enter_full hfull
    · next hroom =>
      rw [act_enter (Int.not_le.1 hroom) rfl]
      exact (act_dispatch hd).trans (act_of_staysInside hd (staysInside_argumentValue hgap))

theorem handle_argumentValue (hd : p.character? = some d) :
    handle p ⟨argumentValue :: outer, k⟩ =
      if isGap d then act p 1000 .leave ⟨argumentValue :: outer, k⟩
      else (inside p.maxDepth d (argumentValue :: outer)).map fun active =>
        ⟨active, k.append [d]⟩ := by
  rw [handle_cons hd]
  split
  · next hgap => rw [actionFor_argumentValue_of_isGap hgap]
  · next hgap =>
    exact act_of_staysInside hd (staysInside_argumentValue (Bool.not_eq_true _ ▸ hgap))

theorem actionFor_outputTarget (d : Char) : (grammar .outputTarget).actionFor [d] = .content := by
  rw [State.actionFor_singleton]
  exact ite_self _

theorem handle_outputTarget (hd : p.character? = some d) :
    handle p ⟨outputTarget :: outer, k⟩ = some ⟨outputTarget :: outer, k.append [d]⟩ := by
  rw [handle_cons hd, actionFor_outputTarget]
  exact act_content hd

end Draft

/-! ## Trimming -/

namespace Text

theorem trimStart_cons_of_not_isBlank {d : Char} (hd : isBlank d = false) (text : Text) :
    trimStart (d :: text) = d :: text := by
  rw [trimStart, List.dropWhile_cons, hd]
  rfl

/-- Trimming the end keeps the start, unless the text is blank. -/
theorem trimEnd_cons_of_not_isBlank {d : Char} (hd : isBlank d = false) (text : Text) :
    ∃ rest, trimEnd (d :: text) = d :: rest := by
  have hinitial : trimEnd (d :: text) <+: d :: text := List.rdropWhile_prefix _ _
  cases h : trimEnd (d :: text) with
  | nil =>
    have hall := List.rdropWhile_eq_nil_iff.1 h d List.mem_cons_self
    exact absurd hall (Bool.not_eq_true _ ▸ hd)
  | cons e rest =>
    rw [h] at hinitial
    obtain ⟨rfl, -⟩ := List.cons_prefix_cons.1 hinitial
    exact ⟨rest, rfl⟩

theorem trim_trim (text : Text) : trim (trim text) = trim text := by
  have hstart : trimStart (trim text) = trim text := by
    cases h : trimStart text with
    | nil => rw [trim, h]; rfl
    | cons d rest =>
      have hd : isBlank d = false := by
        have := List.head?_dropWhile_not isBlank text
        rw [show text.dropWhile isBlank = d :: rest from h] at this
        simpa using this
      obtain ⟨rest', hrest⟩ := trimEnd_cons_of_not_isBlank hd rest
      rw [trim, h, hrest, trimStart_cons_of_not_isBlank hd]
  rw [trim, hstart, trim]
  exact List.rdropWhile_idempotent isBlank _

theorem trim_cons_of_isBlank {d : Char} (hd : isBlank d = true) (text : Text) :
    trim (d :: text) = trim text := by
  rw [trim, trimStart, List.dropWhile_cons, hd]
  rfl

theorem length_trim_le (text : Text) : (trim text).length ≤ text.length :=
  (List.rdropWhile_prefix isBlank _).length_le.trans (List.dropWhile_suffix isBlank).length_le

/-- A trimmed text does not start with a gap. -/
theorem isGap_of_trim {d : Char} {text : Text} (h : trim (d :: text) = d :: text) :
    isGap d = false := by
  cases hgap : isGap d with
  | false => rfl
  | true =>
    rw [trim_cons_of_isBlank (isBlank_of_isGap hgap)] at h
    have hlength := length_trim_le text
    rw [h, List.length_cons] at hlength
    omega

end Text

/-! ## Legible arguments -/

/-- The text can be taken for the name of an argument. -/
def isArgumentName : Text → Bool
  | '-' :: name => name.all fun d => d != '=' && !isGap d
  | _ => false

/-- The text can be taken for the start of an argument without a name. -/
def startsPositional : Text → Bool
  | d :: _ => !isGap d && d != '-' && d != '>'
  | [] => false

/-- The value ends where its text ends: all parts are closed, or else the line ends and no
delimiter is missing. -/
def endsValue (maxDepth : Int) (value : List StateName) (atEnd : Bool) (text : Text) : Bool :=
  (scan maxDepth text value).any fun active =>
    if atEnd then active.all StateName.toleratesEnd else active == value

/-- The states that are active in a list of arguments. -/
abbrev argumentStates (outer : List StateName) : List StateName := .argumentList :: outer

/-- The states that are active in an argument with a name. -/
abbrev namedStates (outer : List StateName) : List StateName :=
  .argument :: argumentStates outer

/-- The states that are active after the `=` of an argument. -/
abbrev separatedStates (outer : List StateName) : List StateName :=
  .nameValueSeparator :: namedStates outer

namespace Argument.Said

/-- The argument as it is written. -/
def text (a : Said) : Text := (({} : Format).argument? a.name a.value).getD []

/-- The argument is read as it is written, in the list of arguments within `outer`; what follows is
a gap or the end of the line. -/
def isLegible (maxDepth : Int) (outer : List StateName) (atEnd : Bool) (a : Said) : Bool :=
  !a.inPropertyList &&
    match a.name, a.value with
    | none, none => false
    | none, some value =>
      startsPositional value && (argumentStates outer).length < maxDepth &&
        endsValue maxDepth (.argumentValue :: argumentStates outer) atEnd value
    | some name, none => isArgumentName name && (argumentStates outer).length < maxDepth
    | some name, some value =>
      isArgumentName name && trim name = name && (namedStates outer).length < maxDepth &&
        (value.isEmpty ||
          !value.head?.any isGap && (separatedStates outer).length < maxDepth &&
            endsValue maxDepth (.argumentValue :: separatedStates outer) atEnd value)

section

variable {maxDepth : Int} {outer : List StateName} {name value : Text} {d : Char}

theorem isLegible_flag (hname : isArgumentName name = true)
    (hroom : (argumentStates outer).length < maxDepth) (atEnd : Bool) :
    isLegible maxDepth outer atEnd ⟨some name, none, false⟩ = true := by
  simp only [isLegible, hname, decide_eq_true hroom]
  rfl

theorem isLegible_unvalued (hname : isArgumentName name = true) (htrim : trim name = name)
    (hroom : (namedStates outer).length < maxDepth) (atEnd : Bool) :
    isLegible maxDepth outer atEnd ⟨some name, some [], false⟩ = true := by
  simp only [isLegible, hname, decide_eq_true htrim, decide_eq_true hroom]
  rfl

theorem isLegible_positional (hstart : startsPositional value = true)
    (hroom : (argumentStates outer).length < maxDepth) (atEnd : Bool) :
    isLegible maxDepth outer atEnd ⟨none, some value, false⟩ =
      endsValue maxDepth (.argumentValue :: argumentStates outer) atEnd value := by
  simp only [isLegible, hstart, decide_eq_true hroom]
  rfl

theorem isLegible_valued (hname : isArgumentName name = true) (htrim : trim name = name)
    (hgap : isGap d = false) (hroom : (separatedStates outer).length < maxDepth) (atEnd : Bool) :
    isLegible maxDepth outer atEnd ⟨some name, some (d :: value), false⟩ =
      endsValue maxDepth (.argumentValue :: separatedStates outer) atEnd (d :: value) := by
  have hroom' : (namedStates outer).length < maxDepth := Int.lt_trans (Int.lt_succ _) hroom
  simp only [isLegible, hname, decide_eq_true htrim, decide_eq_true hroom, decide_eq_true hroom',
    List.head?_cons, Option.any_some, hgap]
  rfl

end
end Argument.Said

/-- The sketch with further arguments and no token. -/
def Sketch.having (k : Sketch) (args : List Argument.Said) : Sketch :=
  { k.fresh with arguments := k.arguments ++ args }

/-- A draft has the text of an argument behind it; the argument is not complete yet. -/
inductive Spelled (maxDepth : Int) (outer : List StateName) (k : Sketch) :
    Argument.Said → Draft → Prop
  | flag {name : Text} (hname : isArgumentName name = true)
      (hroom : (argumentStates outer).length < maxDepth) :
    Spelled maxDepth outer k ⟨some name, none, k.inPropertyList⟩
      ⟨namedStates outer, { k.fresh with buffer := name }⟩
  | unvalued {name : Text} (hname : isArgumentName name = true) (htrim : trim name = name)
      (hroom : (namedStates outer).length < maxDepth) :
    Spelled maxDepth outer k ⟨some name, some [], k.inPropertyList⟩
      ⟨separatedStates outer, { k.fresh with name := some name }⟩
  | positional {value : Text} {active : List StateName} (hstart : startsPositional value = true)
      (hroom : (argumentStates outer).length < maxDepth)
      (hscan : scan maxDepth value (.argumentValue :: argumentStates outer) = some active) :
    Spelled maxDepth outer k ⟨none, some value, k.inPropertyList⟩
      ⟨active, { k.fresh with buffer := value, hasValue := true }⟩
  | valued {name : Text} {d : Char} {value : Text} {active : List StateName}
      (hname : isArgumentName name = true) (htrim : trim name = name) (hgap : isGap d = false)
      (hroom : (separatedStates outer).length < maxDepth)
      (hscan : scan maxDepth (d :: value) (.argumentValue :: separatedStates outer) =
        some active) :
    Spelled maxDepth outer k ⟨some name, some (d :: value), k.inPropertyList⟩
      ⟨active, { k.fresh with buffer := d :: value, name := some name, hasValue := true }⟩

section

variable {maxDepth : Int} {outer : List StateName} {k : Sketch} {a : Argument.Said} {sc : Draft}

open Draft

/-! ### Writing -/

/-- A text without `=` and gaps is taken into a name. -/
theorem walk_name {name : Text} (hname : name.all (fun d => d != '=' && !isGap d) = true)
    (before after : Text) (k : Sketch) :
    walk maxDepth before name after ⟨namedStates outer, k⟩ =
      some ⟨namedStates outer, k.append name⟩ := by
  refine walk_content (fun d hd => ?_) hname before after k
  rw [Bool.and_eq_true, bne_iff_ne, Bool.not_eq_true'] at hd
  rw [actionFor_argument, if_neg hd.1, hd.2, if_neg Bool.false_ne_true]

/-- The start of an argument with a name. -/
theorem walk_argumentName {name : Text} (hname : isArgumentName name = true)
    (hroom : (argumentStates outer).length < maxDepth) (before after : Text) (k : Sketch) :
    walk maxDepth before name after ⟨argumentStates outer, k⟩ =
      some ⟨namedStates outer, { k.fresh with buffer := name }⟩ := by
  unfold isArgumentName at hname
  split at hname
  · rw [walk_cons, handle_argumentList rfl, if_neg (show ¬isGap '-' = true by decide),
      if_neg (Int.not_le.2 hroom), if_pos rfl, Option.bind_some, walk_name hname]
    rfl
  · cases hname

namespace Spelled

/-- The start of an argument without a name. -/
theorem walk_positional {value : Text} {atEnd : Bool} (hstart : startsPositional value = true)
    (hroom : (argumentStates outer).length < maxDepth)
    (hvalue : endsValue maxDepth (.argumentValue :: argumentStates outer) atEnd value = true)
    (before after : Text) (k : Sketch) :
    ∃ active, scan maxDepth value (.argumentValue :: argumentStates outer) = some active ∧
      Draft.walk maxDepth before value after ⟨argumentStates outer, k⟩ =
        some ⟨active, { k.fresh with buffer := value, hasValue := true }⟩ := by
  obtain ⟨active, hscan, -⟩ := (Option.any_eq_true _ _).1 hvalue
  refine ⟨active, hscan, ?_⟩
  cases value with
  | nil => cases hstart
  | cons d value =>
    simp only [startsPositional, Bool.and_eq_true, Bool.not_eq_true', bne_iff_ne] at hstart
    obtain ⟨⟨hgap, hdash⟩, htarget⟩ := hstart
    rw [scan_cons] at hscan
    obtain ⟨next, hnext, hscan⟩ := Option.bind_eq_some_iff.1 hscan
    rw [walk_cons, handle_argumentList rfl, hgap, if_neg Bool.false_ne_true,
      if_neg (Int.not_le.2 hroom), if_neg hdash, if_neg htarget, hnext]
    exact walk_of_scan _ _ hscan

/-- A name and the separator after it. -/
theorem walk_separator {name : Text} (hname : isArgumentName name = true)
    (htrim : trim name = name) (hroom : (namedStates outer).length < maxDepth)
    (before value after : Text) (k : Sketch) :
    Draft.walk maxDepth before (name ++ '=' :: value) after ⟨argumentStates outer, k⟩ =
      Draft.walk maxDepth (before ++ name ++ ['=']) value after
        ⟨separatedStates outer, { k.fresh with name := some name }⟩ := by
  have hwalk := walk_argumentName hname (Int.lt_trans (Int.lt_succ _) hroom) before
    ('=' :: value ++ after) k
  rw [walk_append_of hwalk, walk_cons, handle_argument rfl, if_pos rfl,
    if_neg (Int.not_le.2 hroom), Sketch.named]
  simp only [htrim]
  rfl

/-- The value of an argument with a name. -/
theorem walk_valued {name : Text} {d : Char} {value : Text} {atEnd : Bool}
    (hgap : isGap d = false) (hroom : (separatedStates outer).length < maxDepth)
    (hvalue : endsValue maxDepth (.argumentValue :: separatedStates outer) atEnd (d :: value) =
      true) (before after : Text) (k : Sketch) :
    ∃ active,
      scan maxDepth (d :: value) (.argumentValue :: separatedStates outer) = some active ∧
      Draft.walk maxDepth before (d :: value) after
          ⟨separatedStates outer, { k.fresh with name := some name }⟩ =
        some ⟨active,
          { k.fresh with buffer := d :: value, name := some name, hasValue := true }⟩ := by
  obtain ⟨active, hscan, -⟩ := (Option.any_eq_true _ _).1 hvalue
  refine ⟨active, hscan, ?_⟩
  rw [scan_cons] at hscan
  obtain ⟨next, hnext, hscan⟩ := Option.bind_eq_some_iff.1 hscan
  rw [walk_cons, handle_nameValueSeparator rfl, hgap, if_neg Bool.false_ne_true,
    if_neg (Int.not_le.2 hroom), hnext]
  exact walk_of_scan _ _ hscan

/-- The text of a legible argument is read as that argument. -/
theorem walk {atEnd : Bool} (hk : k.inPropertyList = false)
    (h : a.isLegible maxDepth outer atEnd = true) (before after : Text) :
    ∃ sc, Draft.walk maxDepth before a.text after ⟨argumentStates outer, k⟩ = some sc ∧
      Spelled maxDepth outer k a sc := by
  obtain ⟨name, value, inPropertyList⟩ := a
  simp only [Argument.Said.isLegible, Bool.and_eq_true, Bool.not_eq_true'] at h
  obtain ⟨rfl, h⟩ := h
  rw [← hk]
  match name, value with
  | none, none => cases h
  | none, some value =>
    simp only [Bool.and_eq_true, decide_eq_true_eq] at h
    obtain ⟨⟨hstart, hroom⟩, hvalue⟩ := h
    obtain ⟨active, hscan, hwalk⟩ := walk_positional hstart hroom hvalue before after k
    exact ⟨_, hwalk, .positional hstart hroom hscan⟩
  | some name, none =>
    simp only [Bool.and_eq_true, decide_eq_true_eq] at h
    exact ⟨_, walk_argumentName h.1 h.2 before after k, .flag h.1 h.2⟩
  | some name, some value =>
    simp only [Bool.and_eq_true, decide_eq_true_eq] at h
    obtain ⟨⟨⟨hname, htrim⟩, hroom⟩, hvalue⟩ := h
    have htext : Argument.Said.text ⟨some name, some value, k.inPropertyList⟩ =
        name ++ '=' :: value := by
      simp [Argument.Said.text, Format.argument?]
    rw [htext, walk_separator hname htrim hroom]
    cases value with
    | nil => exact ⟨_, rfl, .unvalued hname htrim hroom⟩
    | cons d value =>
      simp only [List.isEmpty_cons, Bool.false_or, Bool.and_eq_true, Bool.not_eq_true',
        List.head?_cons, Option.any_some, decide_eq_true_eq] at hvalue
      obtain ⟨⟨hgap, hroom⟩, hvalue⟩ := hvalue
      obtain ⟨active, hscan, hwalk⟩ := walk_valued hgap hroom hvalue _ after k
      exact ⟨_, hwalk, .valued hname htrim hgap hroom hscan⟩

/-! ### The end of an argument -/

section

variable {p : Spot} {d : Char} {value : List StateName} {opened : List StateName} {text : Text}

theorem endsValue_false_of_scan (h : scan maxDepth text value = some (opened ++ value)) :
    endsValue maxDepth value false text = opened.isEmpty := by
  rw [endsValue, h, Option.any_some, if_neg Bool.false_ne_true, Bool.eq_iff_iff, beq_iff_eq,
    List.append_left_eq_self, List.isEmpty_iff]

theorem endsValue_of_scan (h : scan maxDepth text value = some value) :
    endsValue maxDepth value false text = true := by
  rw [endsValue, h, Option.any_some, if_neg Bool.false_ne_true, beq_self_eq_true]

theorem endsValue_true_of_scan (hvalue : value.all StateName.toleratesEnd = true)
    (h : scan maxDepth text value = some (opened ++ value)) :
    endsValue maxDepth value true text = opened.all StateName.toleratesEnd := by
  rw [endsValue, h, Option.any_some, if_pos rfl, List.all_append, hvalue, Bool.and_true]

theorem opened_of_scan {outer : List StateName} {active : List StateName}
    (h : scan maxDepth text (.argumentValue :: outer) = some active) :
    Opened (.argumentValue :: outer) active :=
  (Opened.refl _).scan rfl h

/-- A gap ends an argument that is legible before it. -/
theorem handle_gap (hd : p.character? = some d) (hgap : isGap d = true)
    (hlegible : a.isLegible p.maxDepth outer false = true)
    (h : Spelled p.maxDepth outer k a sc) :
    handle p sc = some ⟨argumentStates outer, k.having [a]⟩ := by
  cases h with
  | flag hname hroom =>
    rw [handle_argument hd, if_neg (by rintro rfl; cases hgap), if_pos hgap]
    rfl
  | unvalued hname htrim hroom =>
    rw [handle_nameValueSeparator hd, if_pos hgap]
    rfl
  | positional hstart hroom hscan =>
    obtain ⟨opened, hopened, rfl⟩ := opened_of_scan hscan
    simp only [Argument.Said.isLegible, endsValue_false_of_scan hscan, Bool.and_eq_true,
      List.isEmpty_iff] at hlegible
    rw [hlegible.2.2, List.nil_append, handle_argumentValue hd, if_pos hgap]
    exact leave_positional
  | valued hname htrim hstart hroom hscan =>
    obtain ⟨opened, hopened, rfl⟩ := opened_of_scan hscan
    simp only [Argument.Said.isLegible, endsValue_false_of_scan hscan, Bool.and_eq_true,
      List.isEmpty_cons, Bool.false_or, List.isEmpty_iff] at hlegible
    rw [hlegible.2.2.2, List.nil_append, handle_argumentValue hd, if_pos hgap]
    exact leave_valued

/-- The end of the line ends an argument that is legible before it, and no other. -/
theorem unwinds {last : Option Draft} (hk : k.inPropertyList = false)
    (houter : outer.all StateName.toleratesEnd = true) (h : Spelled p.maxDepth outer k a sc)
    (hlist : Unwinds p ⟨argumentStates outer, k.having [a]⟩ last) :
    Unwinds p sc (if a.isLegible p.maxDepth outer true then last else none) := by
  cases h with
  | @flag name hname hroom =>
    rw [hk, Argument.Said.isLegible_flag hname hroom, if_pos rfl]
    exact hlist.leaving rfl leave_argument (by simp)
  | @unvalued name hname htrim hroom =>
    rw [hk, Argument.Said.isLegible_unvalued hname htrim hroom, if_pos rfl]
    exact hlist.leaving rfl leave_nameValueSeparator (by simp)
  | @positional value _ hstart hroom hscan =>
    obtain ⟨opened, hopened, rfl⟩ := opened_of_scan hscan
    have hstates : (StateName.argumentValue :: argumentStates outer).all
        StateName.toleratesEnd = true := houter
    rw [hk, Argument.Said.isLegible_positional hstart hroom, endsValue_true_of_scan hstates hscan]
    exact unwinds_opened hopened rfl (hlist.leaving rfl leave_positional (by simp))
  | @valued name d value _ hname htrim hgap hroom hscan =>
    obtain ⟨opened, hopened, rfl⟩ := opened_of_scan hscan
    have hstates : (StateName.argumentValue :: separatedStates outer).all
        StateName.toleratesEnd = true := houter
    rw [hk, Argument.Said.isLegible_valued hname htrim hgap hroom,
      endsValue_true_of_scan hstates hscan]
    exact unwinds_opened hopened rfl (hlist.leaving rfl leave_valued (by simp))

end

/-! ### Reading -/

section

variable {p : Spot} {d : Char} {sc' : Draft}

theorem isArgumentName_append {name : Text} (hname : isArgumentName name = true) (hd : d ≠ '=')
    (hgap : isGap d = false) : isArgumentName (name ++ [d]) = true := by
  unfold isArgumentName at hname
  split at hname
  · simp_all [isArgumentName]
  · cases hname

theorem isArgumentName_trim {name : Text} (hname : isArgumentName name = true) :
    isArgumentName (trim name) = true := by
  unfold isArgumentName at hname
  split at hname
  · next name =>
    have hdash : isBlank '-' = false := rfl
    obtain ⟨rest, hrest⟩ := trimEnd_cons_of_not_isBlank hdash name
    have hinitial : trimEnd ('-' :: name) <+: '-' :: name := List.rdropWhile_prefix _ _
    rw [hrest, List.cons_prefix_cons] at hinitial
    rw [trim, trimStart_cons_of_not_isBlank hdash, hrest]
    exact List.all_eq_true.2 fun d hd => List.all_eq_true.1 hname d (hinitial.2.subset hd)
  · cases hname

theorem startsPositional_append {value : Text} (h : startsPositional value = true) :
    startsPositional (value ++ [d]) = true := by
  cases value with
  | nil => cases h
  | cons e value => exact h

/-- A character after the start of a value either ends it or is taken in. -/
theorem handle_opened {states active : List StateName} (hd : p.character? = some d)
    (hactive : Opened (.argumentValue :: states) active)
    (h : handle p ⟨active, k⟩ = some sc) :
    isGap d = true ∧ active = .argumentValue :: states ∧
        act p 1000 .leave ⟨.argumentValue :: states, k⟩ = some sc ∨
      ∃ next, inside p.maxDepth d active = some next ∧ sc = ⟨next, k.append [d]⟩ := by
  obtain ⟨opened, hopened, rfl⟩ := hactive
  have hinside (h : (inside p.maxDepth d (opened ++ .argumentValue :: states)).map
      (fun active => (⟨active, k.append [d]⟩ : Draft)) = some sc) :
      ∃ next, inside p.maxDepth d (opened ++ .argumentValue :: states) = some next ∧
        sc = ⟨next, k.append [d]⟩ := by
    obtain ⟨next, hnext, rfl⟩ := Option.map_eq_some_iff.1 h
    exact ⟨next, hnext, rfl⟩
  cases opened with
  | nil =>
    rw [List.nil_append, handle_argumentValue hd] at h
    split at h
    · next hgap => exact .inl ⟨hgap, rfl, h⟩
    · exact .inr (hinside h)
  | cons x opened =>
    rw [List.forall_mem_cons] at hopened
    have hresumes : ∃ y rest, opened ++ .argumentValue :: states = y :: rest ∧
        y.resumes = true := by
      cases opened with
      | nil => exact ⟨_, _, rfl, rfl⟩
      | cons y opened =>
        exact ⟨y, _, rfl, StateName.resumes_of_isPart (List.forall_mem_cons.1 hopened.2).1⟩
    obtain ⟨y, rest, hrest, hy⟩ := hresumes
    rw [List.cons_append, hrest] at h hinside ⊢
    rw [handle_part hd hopened.1 hy] at h
    exact .inr (hinside h)

theorem scan_singleton {states next : List StateName}
    (hnext : inside maxDepth d states = some next) : scan maxDepth [d] states = some next := by
  rw [scan_cons, hnext]
  rfl

theorem scan_concat {states active next : List StateName} {text : Text}
    (hscan : scan maxDepth text states = some active)
    (hnext : inside maxDepth d active = some next) :
    scan maxDepth (text ++ [d]) states = some next := by
  rw [scan_append, hscan, Option.bind_some, scan_singleton hnext]

/-- What the first character of an argument, or another one in the place of it, starts. -/
theorem start (hd : p.character? = some d)
    (h : handle p ⟨argumentStates outer, k⟩ = some sc) :
    sc = ⟨argumentStates outer, k⟩ ∨ (∃ a, Spelled p.maxDepth outer k a sc) ∨
      (argumentStates outer).length < p.maxDepth ∧
        sc = ⟨.outputTarget :: argumentStates outer, k.fresh⟩ := by
  rw [handle_argumentList hd] at h
  split at h
  · cases h
    exact .inl rfl
  split at h
  · cases h
  next hgap hfull =>
  have hroom := Int.not_le.1 hfull
  split at h
  · next hdash =>
    cases h
    exact .inr (.inl ⟨_, .flag (by rw [hdash]; rfl) hroom⟩)
  split at h
  · cases h
    exact .inr (.inr ⟨hroom, rfl⟩)
  next hdash htarget =>
  obtain ⟨active, hactive, rfl⟩ := Option.map_eq_some_iff.1 h
  have hstart : startsPositional [d] = true := by
    simp [startsPositional, hgap, hdash, htarget]
  exact .inr (.inl ⟨_, .positional hstart hroom (scan_singleton hactive)⟩)

/-- A character after the start of an argument ends it, if it is legible, or goes on with it. -/
theorem step (hd : p.character? = some d) (hk : k.inPropertyList = false)
    (h : Spelled p.maxDepth outer k a sc) (hhandle : handle p sc = some sc') :
    a.isLegible p.maxDepth outer false = true ∧ sc' = ⟨argumentStates outer, k.having [a]⟩ ∨
      ∃ a', Spelled p.maxDepth outer k a' sc' := by
  cases h with
  | @flag name hname hroom =>
    rw [handle_argument hd] at hhandle
    split at hhandle
    · split at hhandle
      · cases hhandle
      · next hfull =>
        cases hhandle
        exact .inr ⟨_, .unvalued (isArgumentName_trim hname) (trim_trim name)
          (Int.not_le.1 hfull)⟩
    · next hseparator =>
      split at hhandle
      · cases hhandle
        exact .inl ⟨by rw [hk, Argument.Said.isLegible_flag hname hroom], rfl⟩
      · next hgap =>
        cases hhandle
        exact .inr ⟨_, .flag
          (isArgumentName_append hname hseparator (Bool.not_eq_true _ ▸ hgap)) hroom⟩
  | @unvalued name hname htrim hroom =>
    rw [handle_nameValueSeparator hd] at hhandle
    split at hhandle
    · cases hhandle
      exact .inl ⟨by rw [hk, Argument.Said.isLegible_unvalued hname htrim hroom], rfl⟩
    split at hhandle
    · cases hhandle
    next hgap hfull =>
    obtain ⟨active, hactive, rfl⟩ := Option.map_eq_some_iff.1 hhandle
    exact .inr ⟨_, .valued hname htrim (Bool.not_eq_true _ ▸ hgap) (Int.not_le.1 hfull)
      (scan_singleton hactive)⟩
  | @positional value active hstart hroom hscan =>
    obtain ⟨-, rfl, hleave⟩ | ⟨next, hnext, rfl⟩ :=
      handle_opened hd (opened_of_scan hscan) hhandle
    · cases leave_positional.symm.trans hleave
      exact .inl ⟨by rw [hk, Argument.Said.isLegible_positional hstart hroom,
        endsValue_of_scan hscan], rfl⟩
    · exact .inr ⟨_, .positional (startsPositional_append hstart) hroom
        (scan_concat hscan hnext)⟩
  | @valued name e value active hname htrim hgap hroom hscan =>
    obtain ⟨-, rfl, hleave⟩ | ⟨next, hnext, rfl⟩ :=
      handle_opened hd (opened_of_scan hscan) hhandle
    · cases leave_valued.symm.trans hleave
      exact .inl ⟨by rw [hk, Argument.Said.isLegible_valued hname htrim hgap hroom,
        endsValue_of_scan hscan], rfl⟩
    · exact .inr ⟨_, .valued hname htrim hgap hroom (scan_concat hscan hnext)⟩

end
end Spelled
end

/-! ## Lists of arguments -/

namespace Argument.Said

/-- All arguments are read as they are written, one gap after each. -/
def areLegible (maxDepth : Int) (outer : List StateName) (atEnd : Bool) (args : List Said) : Bool :=
  args.dropLast.all (isLegible maxDepth outer false) &&
    args.getLast?.all (isLegible maxDepth outer atEnd)

variable {maxDepth : Int} {outer : List StateName} {args : List Said} {atEnd : Bool}

theorem areLegible_singleton (a : Said) :
    areLegible maxDepth outer atEnd [a] = a.isLegible maxDepth outer atEnd := rfl

theorem areLegible_cons_cons (a b : Said) :
    areLegible maxDepth outer atEnd (a :: b :: args) =
      (a.isLegible maxDepth outer false && areLegible maxDepth outer atEnd (b :: args)) := by
  rw [areLegible, List.dropLast_cons_cons, List.all_cons, List.getLast?_cons_cons, Bool.and_assoc]
  rfl

theorem areLegible_concat (a : Said) :
    areLegible maxDepth outer atEnd (args ++ [a]) =
      (args.all (isLegible maxDepth outer false) && a.isLegible maxDepth outer atEnd) := by
  rw [areLegible, List.dropLast_concat, List.getLast?_concat]
  rfl

/-- What is legible before a gap is legible at the end of a line. -/
theorem isLegible_atEnd (houter : outer.all StateName.toleratesEnd = true) {a : Said}
    (h : a.isLegible maxDepth outer false = true) : a.isLegible maxDepth outer true = true := by
  have hends {text : Text} {states : List StateName}
      (hstates : states.all StateName.toleratesEnd = true)
      (h : endsValue maxDepth states false text = true) :
      endsValue maxDepth states true text = true := by
    obtain ⟨active, hscan, hactive⟩ := (Option.any_eq_true _ _).1 h
    cases eq_of_beq hactive
    rw [endsValue, hscan]
    exact hstates
  obtain ⟨name, value, inPropertyList⟩ := a
  match name, value with
  | none, none => exact h
  | some name, none => exact h
  | none, some value =>
    simp only [isLegible, Bool.and_eq_true] at h ⊢
    exact ⟨h.1, h.2.1, hends houter h.2.2⟩
  | some name, some value =>
    simp only [isLegible, Bool.and_eq_true, Bool.or_eq_true] at h ⊢
    exact ⟨h.1, h.2.1, h.2.2.imp_right fun hvalue => ⟨hvalue.1, hends houter hvalue.2⟩⟩

theorem areLegible_of_all (houter : outer.all StateName.toleratesEnd = true)
    (h : args.all (isLegible maxDepth outer false) = true) :
    areLegible maxDepth outer true args = true := by
  rw [areLegible, Bool.and_eq_true]
  have hbefore : args.dropLast.all (isLegible maxDepth outer false) = true :=
    List.all_eq_true.2 fun a ha =>
      List.all_eq_true.1 h a ((List.dropLast_sublist args).subset ha)
  refine ⟨hbefore, ?_⟩
  cases hlast : args.getLast? with
  | none => rfl
  | some a =>
    exact isLegible_atEnd houter (List.all_eq_true.1 h a (List.mem_of_getLast? hlast))

theorem isLegible_of_areLegible (houter : outer.all StateName.toleratesEnd = true)
    (h : areLegible maxDepth outer true args = true) {a : Said} (ha : a ∈ args) :
    a.isLegible maxDepth outer true = true := by
  rcases List.eq_nil_or_concat' args with rfl | ⟨init, last, rfl⟩
  · cases ha
  · rw [areLegible_concat, Bool.and_eq_true] at h
    rcases List.mem_append.1 ha with hinit | hlast
    · exact isLegible_atEnd houter (List.all_eq_true.1 h.1 a hinit)
    · exact List.mem_singleton.1 hlast ▸ h.2

theorem room_of_isLegible {a : Said} (h : a.isLegible maxDepth outer atEnd = true) :
    (argumentStates outer).length < maxDepth := by
  rw [isLegible, Bool.and_eq_true] at h
  obtain ⟨name, value, inPropertyList⟩ := a
  match name, value with
  | none, none => cases h.2
  | none, some value =>
    simp only [Bool.and_eq_true, decide_eq_true_eq] at h
    exact h.2.1.2
  | some name, none =>
    simp only [Bool.and_eq_true, decide_eq_true_eq] at h
    exact h.2.2
  | some name, some value =>
    simp only [Bool.and_eq_true, decide_eq_true_eq] at h
    exact Int.lt_trans (Int.lt_succ _) h.2.1.2

/-- A legible argument is none of a property list, and there is something to write. -/
theorem written_of_isLegible {a : Said} (h : a.isLegible maxDepth outer atEnd = true) :
    a.inPropertyList = false ∧ (({} : Format).argument? a.name a.value).isSome = true := by
  rw [isLegible, Bool.and_eq_true, Bool.not_eq_true'] at h
  refine ⟨h.1, ?_⟩
  obtain ⟨name, value, inPropertyList⟩ := a
  match name, value with
  | none, none => cases h.2
  | none, some value => rfl
  | some name, none => rfl
  | some name, some value => rfl

/-- Arguments as they are written, one after the other. -/
def texts (args : List Said) : Text := [' '].intercalate (args.map text)

end Argument.Said

theorem intercalate_cons {α : Type} {separator : List α} (text : List α) {rest : List (List α)}
    (h : rest ≠ []) :
    separator.intercalate (text :: rest) = text ++ (separator ++ separator.intercalate rest) := by
  cases rest with
  | nil => exact absurd rfl h
  | cons next rest => simp [List.intercalate]

namespace Sketch

variable {k : Sketch} {args more : List Argument.Said}

theorem having_nil (hk : k.fresh = k) : k.having [] = k := by
  rw [having, List.append_nil]
  exact hk

theorem having_having : (k.having args).having more = k.having (args ++ more) := by
  simp only [having, fresh, List.append_assoc]

end Sketch

namespace Draft

open Argument

variable {maxDepth : Int} {outer : List StateName} {k : Sketch} {args : List Said} {p : Spot}

/-! ### Writing -/

/-- An argument and the gap after it. -/
theorem walk_argument_gap {a : Said} (hk : k.inPropertyList = false)
    (ha : a.isLegible maxDepth outer false = true) (before rest after : Text) :
    walk maxDepth before (a.text ++ ' ' :: rest) after ⟨argumentStates outer, k⟩ =
      walk maxDepth (before ++ a.text ++ [' ']) rest after
        ⟨argumentStates outer, k.having [a]⟩ := by
  obtain ⟨sc, hwalk, hspelled⟩ := Spelled.walk hk ha before (' ' :: rest ++ after)
  rw [walk_append_of hwalk, walk_cons_of (hspelled.handle_gap rfl rfl ha)]

/-- The line may end in a list of arguments within these states. -/
structure Grounds (p : Spot) (outer : List StateName) : Prop where
  tolerant : outer.all StateName.toleratesEnd = true
  unwinds : ∀ k, ∃ last, Unwinds p ⟨argumentStates outer, k⟩ last

/-- Legible arguments at the end of a line are read as they are written. -/
theorem finish_texts (houter : Grounds p outer) (hk : k.fresh = k)
    (hlist : k.inPropertyList = false)
    (hargs : Said.areLegible p.maxDepth outer true args = true) (before : Text) :
    (walk p.maxDepth before (Said.texts args) [] ⟨argumentStates outer, k⟩).bind (finish p) =
      finish p ⟨argumentStates outer, k.having args⟩ := by
  induction args generalizing before k with
  | nil =>
    rw [Sketch.having_nil hk]
    rfl
  | cons a args ih =>
    cases args with
    | nil =>
      rw [Said.areLegible_singleton] at hargs
      obtain ⟨last, hlast⟩ := houter.unwinds (k.having [a])
      obtain ⟨sc, hwalk, hspelled⟩ := Spelled.walk hlist hargs before []
      have hunwinds := hspelled.unwinds hlist houter.tolerant hlast
      rw [if_pos hargs] at hunwinds
      rw [show Said.texts [a] = a.text from List.intercalate_singleton, hwalk, Option.bind_some]
      exact finish_congr hunwinds hlast
    | cons b args =>
      rw [Said.areLegible_cons_cons, Bool.and_eq_true] at hargs
      have htexts : Said.texts (a :: b :: args) = a.text ++ ' ' :: Said.texts (b :: args) :=
        intercalate_cons a.text (List.cons_ne_nil _ _)
      have hnext := ih (k := k.having [a]) rfl hlist hargs.2 (before ++ a.text ++ [' '])
      rw [Sketch.having_having] at hnext
      rw [htexts, walk_argument_gap hlist hargs.1, hnext]
      rfl

/-- The output target takes the rest of the line. -/
theorem walk_outputTarget {states : List StateName} (text before after : Text) (k : Sketch) :
    walk maxDepth before text after ⟨.outputTarget :: states, k⟩ =
      some ⟨.outputTarget :: states, k.append text⟩ :=
  walk_content (fun d (_ : (fun _ => true) d = true) => actionFor_outputTarget d)
    (List.all_eq_true.2 fun _ _ => rfl) before after k

/-- An output target after arguments that are legible before a gap. -/
theorem finish_texts_target {target : Text} (houter : Grounds p outer)
    (hroom : (argumentStates outer).length < p.maxDepth) (hk : k.fresh = k)
    (hlist : k.inPropertyList = false)
    (hargs : args.all (Said.isLegible p.maxDepth outer false) = true) (before : Text) :
    (walk p.maxDepth before ([' '].intercalate (args.map Said.text ++ ['>' :: ' ' :: target])) []
        ⟨argumentStates outer, k⟩).bind (finish p) =
      finish p ⟨argumentStates outer,
        { k.having args with outputTarget := some (trim target) }⟩ := by
  induction args generalizing before k with
  | nil =>
    obtain ⟨last, hlast⟩ := houter.unwinds { k.having [] with outputTarget := some (trim target) }
    have hunwinds : Unwinds p ⟨.outputTarget :: argumentStates outer,
        k.fresh.append (' ' :: target)⟩ last := by
      refine Unwinds.leaving rfl leave_outputTarget (by simp) ?_
      have htrim : trim (k.fresh.append (' ' :: target)).buffer = trim target :=
        trim_cons_of_isBlank rfl target
      rw [htrim]
      rw [Sketch.having, List.append_nil] at hlast
      exact hlast
    have htext : [' '].intercalate ([].map Said.text ++ ['>' :: ' ' :: target]) =
        '>' :: ' ' :: target := List.intercalate_singleton
    rw [htext, walk_cons, handle_argumentList rfl, if_neg (show ¬isGap '>' = true by decide),
      if_neg (Int.not_le.2 hroom), if_neg (by decide), if_pos rfl, Option.bind_some,
      walk_outputTarget, Option.bind_some]
    exact finish_congr hunwinds hlast
  | cons a args ih =>
    rw [List.all_cons, Bool.and_eq_true] at hargs
    have hnext := ih (k := k.having [a]) rfl hlist hargs.2 (before ++ a.text ++ [' '])
    rw [Sketch.having_having] at hnext
    rw [List.map_cons, List.cons_append, intercalate_cons a.text (by simp),
      List.singleton_append, walk_argument_gap hlist hargs.1, hnext]
    rfl

end Draft
end CommandLine
