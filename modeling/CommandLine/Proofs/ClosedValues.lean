/-
# `CommandLine.Proofs.ClosedValues` — closed values wherever they stand

A line gives values to names in three positions, after each of which other characters end the value.

    argument   cmd -name=value -name=value     a gap
    property   :op(name=value,name=value)      `,` or `)`
    header     :op{name=value;name=value}      `;` or `}`

A closed value holds these characters only within its parts, and is then reported as it is written
(`ValuePosition.read_line`).  In a list the value is trimmed, so that it must not start or end with
blanks there.
-/
import CommandLine.Proofs.SpacedOperation

namespace CommandLine

open Text Argument Draft

/-- Where a line gives values to names. -/
inductive ValuePosition where
  /-- In an argument of a command. -/
  | argument
  /-- In the property list of an operation. -/
  | property
  /-- In the header list of an operation. -/
  | header

namespace ValuePosition

/-- The characters that end a value. -/
def stops : ValuePosition → Text
  | argument => gapCharacters
  | property => [',', ')']
  | header => [';', '}']

/-- The line of a command or an operation with named values. -/
def line (name : Text) (items : List (Text × Text)) : ValuePosition → Text
  | argument => [' '].intercalate (name :: items.map fun item => '-' :: item.1 ++ '=' :: item.2)
  | property =>
    ':' :: name ++ '(' :: [','].intercalate (items.map fun item => item.1 ++ '=' :: item.2) ++ [')']
  | header =>
    ':' :: name ++ '{' :: [';'].intercalate (items.map fun item => item.1 ++ '=' :: item.2) ++ ['}']

/-- The arguments that the line has. -/
def arguments (items : List (Text × Text)) : ValuePosition → List Said
  | argument => items.map fun item => ⟨some ('-' :: item.1), some item.2, false⟩
  | property => saidProperties items
  | header => []

/-- The headers that the line has. -/
def headers (items : List (Text × Text)) : ValuePosition → List (Text × Text)
  | argument | property => []
  | header => items

section

variable {settings : Settings} {maxDepth : Int} {depth : Nat} {name value : Text}
  {items : List (Text × Text)} {position : ValuePosition}

/-- A list without gaps. -/
theorem flatten_listTokens (separator closing : Char) (items : List (Text × Text)) :
    (listTokens separator closing items).flatten =
      [separator].intercalate (items.map fun item => item.1 ++ '=' :: item.2) ++ [closing] := by
  induction items with
  | nil => rfl
  | cons item items ih =>
    cases items with
    | nil => simp [listTokens, itemTokens]
    | cons next items =>
      rw [listTokens_cons_cons, List.flatten_append, ih, List.map_cons (l := next :: items),
        intercalate_cons _ (by simp)]
      simp [itemTokens]

/-- An argument with a word after its dash and a closed value. -/
theorem isLegible_of_closed (hname : isWord name = true)
    (hvalue : Closed gapCharacters depth value) (hne : value ≠ [])
    (hroom : (depth : Int) + 5 ≤ maxDepth) :
    Said.isLegible maxDepth commandStates false ⟨some ('-' :: name), some value, false⟩ = true := by
  obtain ⟨d, value, rfl⟩ := List.exists_cons_of_ne_nil hne
  have hplain (d : Char) (hd : isWordChar d = true) : (d != '=' && !isGap d) = true := by
    have hgap : isGap d = false := contains_of_isWordChar (by decide) hd
    have hequals : ['='].contains d = false := contains_of_isWordChar (by decide) hd
    simp_all
  have hgap : isGap d = false := by
    cases hvalue with
    | plain _ hstops _ => exact hstops
    | escaped _ => rfl
    | quoted hquote _ _ => rcases hquote with rfl | rfl <;> rfl
    | group hgroup _ _ =>
      simp only [groups, List.mem_cons, List.not_mem_nil, or_false, Prod.mk.injEq] at hgroup
      obtain ⟨rfl, -⟩ | ⟨rfl, -⟩ | ⟨rfl, -⟩ := hgroup <;> rfl
  have htrim : trim ('-' :: name) = '-' :: name := by
    refine trim_of_all ?_
    rw [List.all_cons, all_of_isWord (fun d hd => by rw [isBlank_of_isWordChar hd]; rfl) hname]
    rfl
  have hargument : isArgumentName ('-' :: name) = true := all_of_isWord hplain hname
  rw [Said.isLegible_valued hargument htrim hgap (by simp; omega)]
  exact endsValue_of_closed .argumentValue rfl hvalue (by simp; omega)

theorem isCommandName_of_isWord (h : isWord name = true) : isCommandName name = true := by
  have hplain (d : Char) (hd : isWordChar d = true) : (!isGap d) = true := by
    rw [show isGap d = false from contains_of_isWordChar (by decide) hd]
    rfl
  have hall := all_of_isWord hplain h
  cases name with
  | nil => cases h
  | cons d name =>
    have hd : isWordChar d = true := by
      rw [isWord, List.all_cons, Bool.and_eq_true, Bool.and_eq_true] at h
      exact h.2.1
    rw [isCommandName, hall, contains_of_isWordChar (by decide) hd]
    rfl

theorem isBlankText_of_isWord (h : isWord name = true) (after : Text) :
    isBlankText (name ++ after) = false := by
  cases name with
  | nil => cases h
  | cons d name =>
    rw [isWord, List.all_cons, Bool.and_eq_true, Bool.and_eq_true] at h
    simp [isBlankText, isBlank_of_isWordChar h.2.1]

/-- The arguments of a command. -/
theorem read_arguments (hplain : settings.substitutes = false)
    (hroom : (depth : Int) + 5 ≤ settings.maxDepth) (hname : isWord name = true)
    (hitems : ∀ item ∈ items,
      isWord item.1 = true ∧ item.2 ≠ [] ∧ Closed gapCharacters depth item.2) :
    ∃ d, Command.read settings true .command [] (some (argument.line name items)) = .ok d ∧
      d.address = [] ∧ d.operation = some name ∧
      d.arguments.map Argument.said = argument.arguments items ∧ d.headers = [] := by
  have hhead : (Head.commandName name).isLegible settings.maxDepth = true := by
    have hstates : commandStates.length < settings.maxDepth := by simp; omega
    rw [Head.isLegible, isCommandName_of_isWord hname, decide_eq_true hstates]
    rfl
  have hlegible : (argument.arguments items).all
      (Said.isLegible settings.maxDepth commandStates false) = true := by
    rw [ValuePosition.arguments, List.all_map]
    refine List.all_eq_true.2 fun item hitem => ?_
    obtain ⟨hword, hne, hclosed⟩ := hitems item hitem
    exact isLegible_of_closed hword hclosed hne hroom
  have hline : argument.line name items =
      commandLine (.commandName name) (argument.arguments items) none := by
    have htext : (Said.text ∘ fun item : Text × Text =>
        (⟨some ('-' :: item.1), some item.2, false⟩ : Said)) =
          fun item => '-' :: item.1 ++ '=' :: item.2 :=
      funext fun item => by simp [Said.text, Format.argument?]
    rw [commandLine, target_eq, ValuePosition.arguments, List.map_map, htext]
    simp [ValuePosition.line, Head.text, solidTarget]
  have hsolid : isBlankText (argument.line name items) = false := by
    cases items with
    | nil => exact (List.append_nil name).symm ▸ isBlankText_of_isWord hname []
    | cons item items =>
      rw [ValuePosition.line, intercalate_cons _ (by simp)]
      exact isBlankText_of_isWord hname _
  have hapart : isApart (.commandName name) (argument.arguments items) none = true := by
    rw [isApart, Head.continues]
    cases ((argumentLine (argument.arguments items) none).dropWhile isGap).head? <;> rfl
  have hread := Command.read_command_of_solid hplain hsolid
  rw [hline, read_commandLine hhead
    (.arguments (Said.areLegible_of_all rfl hlegible)) hapart, ← hline] at hread
  obtain ⟨d, hd, hsketch⟩ := Command.exists_of_toOption hread
  exact ⟨d, hd, congrArg Sketch.address hsketch, congrArg Sketch.operation hsketch,
    congrArg Sketch.arguments hsketch, congrArg Sketch.headers hsketch⟩

/-- An operation with closed values in its lists. -/
theorem isLegible_operation {properties headers : Option (List (Text × Text))}
    (hroom : (depth : Int) + 5 ≤ maxDepth) (hname : isWord name = true)
    (hproperties : ∀ item ∈ properties.getD [],
      isWord item.1 = true ∧ trim item.2 = item.2 ∧ Closed [',', ')'] depth item.2)
    (hheaders : ∀ item ∈ headers.getD [], isWord item.1 = true ∧ trim item.2 = item.2 ∧
      item.2 ≠ [] ∧ Closed [';', '}'] depth item.2)
    (hkeys : ((headers.getD []).map Prod.fst).Nodup) :
    Operation.isLegible maxDepth ⟨[], name, properties, headers⟩ = true := by
  have hstates : quotesStates.length < maxDepth := by simp; omega
  have hproperty : (saidProperties (properties.getD [])).all (Said.isProperty maxDepth) = true := by
    rw [saidProperties, List.all_map]
    refine List.all_eq_true.2 fun item hitem => ?_
    obtain ⟨hword, htrim, hclosed⟩ := hproperties item hitem
    exact isProperty_of_closed hword hclosed htrim hroom
  have hheader : (headers.getD []).all (isHeader maxDepth) = true := by
    refine List.all_eq_true.2 fun item hitem => ?_
    obtain ⟨hword, htrim, hne, hclosed⟩ := hheaders item hitem
    exact isHeader_of_closed hword hclosed (List.isEmpty_eq_false_iff.2 hne) htrim hroom
  simp only [Operation.isLegible, decide_eq_true hstates, isOperationName_of_isWord hname,
    hproperty, hheader, decide_eq_true hkeys]
  rfl

/-- Closed values are reported as they are written, wherever they stand. -/
theorem read_line (position : ValuePosition) (hplain : settings.substitutes = false)
    (hroom : (depth : Int) + 5 ≤ settings.maxDepth) (hname : isWord name = true)
    (hitems : ∀ item ∈ items,
      isWord item.1 = true ∧ item.2 ≠ [] ∧ Closed position.stops depth item.2)
    (htrim : position ≠ .argument → ∀ item ∈ items, trim item.2 = item.2)
    (hkeys : position = .header → (items.map Prod.fst).Nodup) :
    ∃ d, Command.read settings true .command [] (some (position.line name items)) = .ok d ∧
      d.address = [] ∧ d.operation = some name ∧
      d.arguments.map Argument.said = position.arguments items ∧
      d.headers = position.headers items := by
  cases position with
  | argument => exact read_arguments hplain hroom hname hitems
  | property =>
    have hlegible := @isLegible_operation _ _ name (some items) none hroom hname
      (fun item hitem => ⟨(hitems item hitem).1, htrim (by simp) item hitem, (hitems item hitem).2.2⟩)
      (by simp) List.nodup_nil
    obtain ⟨d, hd, hsays⟩ := Operation.says_flatten hplain hlegible
    have hline : property.line name items =
        (Operation.tokens ⟨[], name, some items, none⟩).flatten := by
      simp [ValuePosition.line, Operation.tokens, propertyTokens, headerTokens,
        flatten_listTokens]
    rw [← hline] at hd
    exact ⟨d, hd, hsays.address, hsays.operation, hsays.arguments, hsays.headers⟩
  | header =>
    have hlegible := @isLegible_operation _ _ name none (some items) hroom hname (by simp)
      (fun item hitem => ⟨(hitems item hitem).1, htrim (by simp) item hitem, (hitems item hitem).2⟩)
      (hkeys rfl)
    obtain ⟨d, hd, hsays⟩ := Operation.says_flatten hplain hlegible
    have hline : header.line name items =
        (Operation.tokens ⟨[], name, none, some items⟩).flatten := by
      simp [ValuePosition.line, Operation.tokens, propertyTokens, headerTokens,
        flatten_listTokens]
    rw [← hline] at hd
    exact ⟨d, hd, hsays.address, hsays.operation, hsays.arguments, hsays.headers⟩

theorem read_line_of_brackets :
    ∃ d, Command.read {} true .command [] (some ":op(n=[a,)],m=1)".toList) = .ok d ∧
      d.address = [] ∧ d.operation = some "op".toList ∧
      d.arguments.map Argument.said =
        [⟨some "n".toList, some "[a,)]".toList, true⟩, ⟨some "m".toList, some "1".toList, true⟩] ∧
      d.headers = [] := by
  have hitems : ∀ item ∈ [("n".toList, "[a,)]".toList), ("m".toList, "1".toList)],
      isWord item.1 = true ∧ item.2 ≠ [] ∧ Closed property.stops 1 item.2 := by
    have hgroup : Closed [',', ')'] 1 "[a,)]".toList :=
      @Closed.group _ _ '[' ']' ['a', ',', ')'] [] (by decide) (closed_of_all 0 (by decide)) .nil
    have hplain : Closed [',', ')'] 1 "1".toList := closed_of_all 1 (by decide)
    intro item hitem
    simp only [List.mem_cons, List.not_mem_nil, or_false] at hitem
    rcases hitem with rfl | rfl
    · exact ⟨by decide, by decide, hgroup⟩
    · exact ⟨by decide, by decide, hplain⟩
  have hline : property.line "op".toList [("n".toList, "[a,)]".toList), ("m".toList, "1".toList)] =
      ":op(n=[a,)],m=1)".toList := by
    decide +kernel
  have hread := @read_line {} 1 "op".toList _ property rfl (by decide) (by decide) hitems
    (fun _ => by decide +kernel) nofun
  rw [hline] at hread
  exact hread

end
end ValuePosition
end CommandLine
