/-
# `CommandLine.Resolver` — what `${...}` expressions and `$` variables stand for

An expression is written `${names:default}`.  Its names are tried in order, the first one that is
defined gives the value; a name that starts with `env.` belongs to the environment and every other
one to the properties.  Without a defined name the default is the value, after the expressions
inside it are resolved in turn.  A variable is written `$name`.

All functions take the text from the `$` on, and the index of that `$` for error reports.  What
cannot be resolved is an error in strict mode and stays as it is otherwise (`none`).

A default is shorter than the expression that holds it (`body?_length`, `Text.cut_length`), so the
mutual recursion of `resolveText` and `valueOfBody` ends on every text.  The stack of calls may end
before: an expression is resolved only where there is room for the defaults that are resolved inside
one another (`resolveWithin`).
-/
import CommandLine.Error
import CommandLine.Text.Blank
import CommandLine.Text.Letter

namespace CommandLine

open Text

/-- The values that names stand for. -/
structure Resolver where
  /-- Values of the names in expressions. -/
  properties : List (Text × Text) := []
  /-- Values of variables; without any table a `$name` is ordinary text. -/
  variableValues : Option (List (Text × Text)) := none
  /-- Values of the names in expressions that start with `env.`. -/
  environment : List (Text × Text) := []
  /-- How many defaults can be resolved inside one another.  Each of them takes three calls, and the
  stack of calls has room for about a thousand, those of the caller included. -/
  nestingLimit : Nat := 325

/-- What resolving can answer: an error, nothing, or a value. -/
abbrev Resolved (α : Type) := Except FormatError (Option α)

/-- Nothing: an error in strict mode, and none otherwise. -/
def unresolved {α : Type} (strict : Bool) (error : FormatError) : Resolved α :=
  if strict then .error error else .ok none

/-- The error for an expression without a closing brace, given the text from its start on. -/
def notClosed (text : Text) (index : Int) : FormatError :=
  .expressionNotClosed text (text.take 10) index

/-- The number of characters before the brace that closes the outermost of `depth` open braces. -/
def closingBrace (depth : Nat) : Text → Option Nat
  | [] => none
  | c :: rest =>
    if c = '}' then
      if depth ≤ 1 then some 0 else (closingBrace (depth - 1) rest).map (· + 1)
    else if c = '{' then (closingBrace (depth + 1) rest).map (· + 1)
    else (closingBrace depth rest).map (· + 1)

/-- The text between the braces of the expression that the text starts with. -/
def body? (text : Text) : Option Text :=
  (closingBrace 1 (text.drop 2)).map (text.drop 2).take

/-- The length of an expression with a given body. -/
def expressionLength (body : Text) : Nat := body.length + 3

/-- Whether the text starts with the mark of an expression. -/
def opensExpression (text : Text) : Bool := ['$', '{'].isPrefixOf text

theorem closingBrace_lt {depth k : Nat} {text : Text} (h : closingBrace depth text = some k) :
    k < text.length := by
  induction text generalizing depth k with
  | nil => simp [closingBrace] at h
  | cons c rest ih =>
    simp only [closingBrace] at h
    have step : ∀ {d}, (closingBrace d rest).map (· + 1) = some k → k < rest.length + 1 := by
      intro d hd
      obtain ⟨j, hj, rfl⟩ := Option.map_eq_some_iff.1 hd
      have := ih hj
      omega
    rw [List.length_cons]
    split at h
    · split at h
      · simp only [Option.some.injEq] at h
        omega
      · exact step h
    · split at h <;> exact step h

/-- An expression lies in the text that starts with it. -/
theorem body?_length {text body : Text} (h : body? text = some body) :
    expressionLength body ≤ text.length := by
  obtain ⟨k, hk, rfl⟩ := Option.map_eq_some_iff.1 h
  have := closingBrace_lt hk
  simp only [expressionLength, List.length_take, List.length_drop] at this ⊢
  omega

namespace Resolver

/-- The mark of a name that belongs to the environment. -/
def environmentMark : Text := ['e', 'n', 'v', '.']

/-- The value of a single name. -/
def lookup (r : Resolver) (name : Text) : Option Text :=
  if name.isEmpty then none
  else if environmentMark.isPrefixOf name then
    r.environment.lookup (name.drop environmentMark.length)
  else r.properties.lookup name

/-- The value of the first defined name of a list of names. -/
def lookupFirst (r : Resolver) (names : Text) : Option Text :=
  (pieces ',' names).findSome? fun name => r.lookup (trim name)

/-- An expression without a value is unresolved. -/
def valueRequired (strict : Bool) (expression : Text) (index : Int) :
    Resolved Text → Resolved Text
  | .ok none => unresolved strict (.unresolvedExpression expression index)
  | answer => answer

mutual

/-- Resolves every expression in a text; `index` is where the text starts.  Nothing comes out when
one of them cannot be resolved. -/
def resolveText (r : Resolver) (strict : Bool) (index : Int) (text : Text) : Resolved Text :=
  match text with
  | [] => .ok (some [])
  | c :: rest =>
    if opensExpression (c :: rest) then
      match _h : body? (c :: rest) with
      | none => unresolved strict (notClosed (c :: rest) index)
      | some body =>
        let expression := (c :: rest).take (expressionLength body)
        match valueRequired strict expression index (r.valueOfBody strict body) with
        | .error e => .error e
        | .ok none => .ok none
        | .ok (some value) =>
          (r.resolveText strict (index + expressionLength body)
            ((c :: rest).drop (expressionLength body))).map (Option.map (value ++ ·))
    else (r.resolveText strict (index + 1) rest).map (Option.map (c :: ·))
termination_by (text.length, 1)
decreasing_by
  all_goals
    first
    | have := body?_length _h
      simp only [Prod.lex_def, expressionLength, List.length_cons, List.length_drop] at this ⊢
      omega
    | simp [Prod.lex_def]

/-- The value of the text between the braces of an expression. -/
def valueOfBody (r : Resolver) (strict : Bool) (body : Text) : Resolved Text :=
  match r.lookupFirst (cut ':' body).1 with
  | some value => .ok (some value)
  | none =>
    match _h : (cut ':' body).2 with
    | some default => r.resolveText strict 0 default
    | none => .ok none
termination_by (body.length, 0)
decreasing_by
  have := cut_length _h
  simp only [Prod.lex_def]
  omega

end

/-- Resolves the expression that the text starts with.  The answer is the expression and its
value. -/
def resolveExpression (r : Resolver) (strict : Bool) (index : Int) (text : Text) :
    Resolved (Text × Text) :=
  match body? text with
  | none => unresolved strict (notClosed text index)
  | some body =>
    let expression := text.take (expressionLength body)
    (valueRequired strict expression index (r.valueOfBody strict body)).map
      (Option.map (expression, ·))

mutual

/-- How many defaults are resolved inside one another when the text is resolved.  What comes after
an expression without a value is not resolved. -/
def textNesting (r : Resolver) (text : Text) : Nat :=
  match text with
  | [] => 0
  | c :: rest =>
    if opensExpression (c :: rest) then
      match _h : body? (c :: rest) with
      | none => 0
      | some body =>
        match r.valueOfBody false body with
        | .ok (some _) =>
          max (r.bodyNesting body) (r.textNesting ((c :: rest).drop (expressionLength body)))
        | _ => r.bodyNesting body
    else r.textNesting rest
termination_by (text.length, 1)
decreasing_by
  all_goals
    first
    | have := body?_length _h
      simp only [Prod.lex_def, expressionLength, List.length_cons, List.length_drop] at this ⊢
      omega
    | simp [Prod.lex_def]

/-- How many defaults are resolved inside one another for the value of the text between the braces
of an expression. -/
def bodyNesting (r : Resolver) (body : Text) : Nat :=
  match r.lookupFirst (cut ':' body).1 with
  | some _ => 0
  | none =>
    match _h : (cut ':' body).2 with
    | some default => r.textNesting default + 1
    | none => 0
termination_by (body.length, 0)
decreasing_by
  have := cut_length _h
  simp only [Prod.lex_def]
  omega

end

/-- How many defaults are resolved inside one another for the expression that the text starts
with. -/
def expressionNesting (r : Resolver) (text : Text) : Nat :=
  ((body? text).map r.bodyNesting).getD 0

/-- The answer about a fragment of a text: a fault, nothing, or the fragment and its value. -/
abbrev Located := Except Fault (Option (Text × Text))

/-- Resolves the expression that the text starts with, if there is room for its defaults. -/
def resolveWithin (r : Resolver) (strict : Bool) (index : Int) (text : Text) : Located :=
  if r.nestingLimit < r.expressionNesting text then .error (.defect .nestedTooDeep)
  else (r.resolveExpression strict index text).mapError .format

/-- The name after the first character of the text, if one starts there. -/
def variableName? (text : Text) : Option Text :=
  match text.drop 1 with
  | [] => none
  | c :: rest => if startsName c then some ((c :: rest).takeWhile continuesName) else none

/-- The variable of a name with its `$`, and its value in a table. -/
def variableIn (table : List (Text × Text)) (strict : Bool) (name : Text) (index : Int) :
    Resolved (Text × Text) :=
  match table.lookup name with
  | some value => .ok (some ('$' :: name, value))
  | none => unresolved strict (.unresolvedVariable name index)

/-- Resolves the variable that the text starts with.  The answer is the variable with its `$`, and
its value. -/
def resolveVariable (r : Resolver) (strict : Bool) (index : Int) (text : Text) :
    Resolved (Text × Text) :=
  match r.variableValues, variableName? text with
  | some table, some name => variableIn table strict name index
  | _, _ => .ok none

end Resolver
end CommandLine
