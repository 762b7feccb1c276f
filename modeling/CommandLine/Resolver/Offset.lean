/-
# `CommandLine.Resolver.Offset` — resolving at an offset of a text

What starts at an offset is resolved with the whole text at hand, and the offset may be any
integer.  From zero on the answer is that of the rest of the text (`resolveExpressionAt_natCast`,
`resolveVariableAt_natCast`).  Below zero offsets count from the end; reading goes on from there to
the end of the text and then through all of it, and what lies between two offsets is cut out of
the text as it stands.
-/
import CommandLine.Resolver
import CommandLine.Text.Offset

namespace CommandLine.Resolver

open Text

/-- Where the brace stands that closes an expression at an offset, given the text read after its
opening brace; a brace below zero closes nothing. -/
def closingOffset (start : Int) (rest : Text) : Option Int :=
  ((closingBrace 1 rest).map fun count => start + 2 + (count : Int)).filter (0 ≤ ·)

/-- Resolves the expression at an offset. -/
def resolveExpressionAt (r : Resolver) (strict : Bool) (text : Text) (start : Int) : Located :=
  match readingFrom? text (start + 2) with
  | none => .error (.defect .noCharacter)
  | some rest =>
    match closingOffset start rest with
    | none =>
      (unresolved strict
        (.expressionNotClosed (suffixAt text start) (between text start (start + 10))
          start)).mapError .format
    | some stop =>
      let expression := between text start (stop + 1)
      let body := (expression.drop 2).dropLast
      if r.nestingLimit < r.bodyNesting body then .error (.defect .nestedTooDeep)
      else
        ((valueRequired strict expression start (r.valueOfBody strict body)).map
          (Option.map (expression, ·))).mapError .format

/-- Resolves the variable at an offset. -/
def resolveVariableAt (r : Resolver) (strict : Bool) (text : Text) (start : Int) : Located :=
  match r.variableValues with
  | none => .ok none
  | some table =>
    match readingFrom? text (start + 1) with
    | none => .error (.defect .noCharacter)
    | some [] => .ok none
    | some (c :: rest) =>
      if startsName c then
        let length := ((c :: rest).takeWhile continuesName).length
        let name := between text (start + 1) (start + 1 + length)
        (variableIn table strict name start).mapError .format
      else .ok none

/-- From zero on the closing brace stands where the rest of the text has it. -/
theorem closingOffset_natCast (start : Nat) (rest : Text) :
    closingOffset start rest =
      (closingBrace 1 rest).map fun count => ((start + 2 + count : Nat) : Int) := by
  cases h : closingBrace 1 rest with
  | none => simp [closingOffset, h]
  | some count =>
    have : (0 : Int) ≤ start + 2 + count := by omega
    simp [closingOffset, h, Option.filter, this]

/-- From zero on an expression is resolved as the rest of the text is. -/
theorem resolveExpressionAt_natCast (r : Resolver) (strict : Bool) (text : Text) (start : Nat) :
    r.resolveExpressionAt strict text start =
      r.resolveWithin strict start (text.drop start) := by
  have h2 : ((start : Int) + 2) = ((start + 2 : Nat) : Int) := rfl
  simp only [resolveExpressionAt, resolveWithin, expressionNesting, resolveExpression, body?,
    notClosed, h2, readingFrom?_natCast, closingOffset_natCast, suffixAt_natCast, List.drop_drop]
  cases h : closingBrace 1 (text.drop (start + 2)) with
  | none =>
    have h10 : between text start (start + 10) = (text.drop start).take 10 :=
      between_natCast_add text start 10
    simp only [Option.map_none, h10, Option.getD_none, Nat.not_lt_zero, if_false]
  | some count =>
    have hc := closingBrace_lt h
    simp only [List.length_drop] at hc
    have he : between text start (((start + 2 + count : Nat) : Int) + 1) =
        (text.drop start).take (count + 3) := by
      rw [← between_natCast_add]
      congr 1
      omega
    have hb : (((text.drop start).take (count + 3)).drop 2).dropLast =
        (text.drop (start + 2)).take count := by
      rw [List.drop_take, List.drop_drop, List.dropLast_eq_take, List.take_take]
      simp only [List.length_take, List.length_drop]
      congr 1
      omega
    have hl : expressionLength ((text.drop (start + 2)).take count) = count + 3 := by
      simp only [expressionLength, List.length_take, List.length_drop]
      omega
    simp only [Option.map_some, he, hb, hl, Option.getD_some]

/-- From zero on a variable is resolved as the rest of the text is. -/
theorem resolveVariableAt_natCast (r : Resolver) (strict : Bool) (text : Text) (start : Nat) :
    r.resolveVariableAt strict text start =
      (r.resolveVariable strict start (text.drop start)).mapError .format := by
  have h1 : ((start : Int) + 1) = ((start + 1 : Nat) : Int) := rfl
  simp only [resolveVariableAt, resolveVariable, variableName?, h1, readingFrom?_natCast,
    List.drop_drop]
  cases r.variableValues with
  | none => rfl
  | some table =>
    cases h : text.drop (start + 1) with
    | nil => rfl
    | cons c rest =>
      by_cases hc : startsName c = true
      · have hn : between text ((start + 1 : Nat) : Int)
            (((start + 1 : Nat) : Int) + ((c :: rest).takeWhile continuesName).length) =
            (c :: rest).takeWhile continuesName := by
          rw [between_natCast_add, h]
          exact (List.prefix_iff_eq_take.1 (List.takeWhile_prefix _)).symm
        simp only [if_pos hc, hn]
      · simp only [if_neg hc]
        rfl

end CommandLine.Resolver
