/-
# `CommandLine.Proofs.Resolving` — resolving strictly and leniently

A strict and a lenient resolver answer alike, but for what cannot be resolved: there the strict one
answers with an error and the lenient one with nothing (`Eased`).

    answer, strict     answer, lenient
    ok a               ok a
    error e            ok none              e an `isUnresolved` error

The two functions that resolve the text of an expression call each other on shorter and shorter
texts, so their comparison is by the same mutual recursion.  At the cursor there is a third answer:
where defaults stand in one another too deep, both fail alike (`passOver`).  Where nothing is
substituted at all there is nothing to resolve and no answer is an error.
-/
import CommandLine.Proofs.Footing

namespace CommandLine

open Text

/-- The error says that an expression or a variable cannot be resolved. -/
def FormatError.isUnresolved : FormatError → Bool
  | expressionNotClosed _ _ _ | unresolvedExpression _ _ | unresolvedVariable _ _ => true
  | _ => false

/-- The error is one that lenient reading passes over: an expression or a variable that cannot be
resolved, or a value that the line leaves open. -/
def FormatError.isTolerable (e : FormatError) : Bool := e.isUnresolved || e.isNotFinished

/-- A strict answer and the lenient one. -/
inductive Eased {α : Type} : Resolved α → Resolved α → Prop
  | same (answer : Option α) : Eased (.ok answer) (.ok answer)
  | passed {e : FormatError} (h : e.isUnresolved = true) : Eased (.error e) (.ok none)

namespace Eased

variable {α β : Type} {strict lenient : Resolved α}

theorem isUnresolved {e : FormatError} (h : Eased (.error e) lenient) : e.isUnresolved = true := by
  cases h with
  | passed he => exact he

/-- A lenient answer is never an error. -/
theorem ne_error (h : Eased strict lenient) (e : FormatError) : lenient ≠ .error e := by
  cases h <;> exact nofun

/-- Only a strict answer is an error, and then about something unresolved. -/
theorem of_error {f : Bool → Resolved α} (h : Eased (f true) (f false)) {strict : Bool}
    {e : FormatError} (he : f strict = .error e) : strict = true ∧ e.isUnresolved = true := by
  cases strict with
  | true => exact ⟨rfl, isUnresolved (he ▸ h)⟩
  | false => exact absurd he (h.ne_error e)

theorem map (h : Eased strict lenient) (f : α → β) :
    Eased (strict.map (Option.map f)) (lenient.map (Option.map f)) := by
  cases h with
  | same answer => exact .same _
  | passed h => exact .passed h

theorem unresolved {e : FormatError} (h : e.isUnresolved = true) :
    Eased (α := α) (CommandLine.unresolved true e) (CommandLine.unresolved false e) := .passed h

theorem valueRequired {strict lenient : Resolved Text} (h : Eased strict lenient)
    (expression : Text) (index : Int) :
    Eased (Resolver.valueRequired true expression index strict)
      (Resolver.valueRequired false expression index lenient) := by
  cases h with
  | same answer =>
    cases answer with
    | none => exact .unresolved rfl
    | some value => exact .same _
  | passed h => exact .passed h

end Eased

namespace Resolver

/-! ## The text of an expression -/

section

variable (r : Resolver) (strict : Bool) (index : Int) {text body : Text}

theorem resolveText_nil : r.resolveText strict index [] = .ok (some []) := by
  rw [resolveText]

theorem resolveText_of_plain {c : Char} {rest : Text}
    (h : opensExpression (c :: rest) = false) :
    r.resolveText strict index (c :: rest) =
      (r.resolveText strict (index + 1) rest).map (Option.map (c :: ·)) := by
  rw [resolveText, h]
  rfl

theorem resolveText_of_open {c : Char} {rest : Text} (h : opensExpression (c :: rest) = true)
    (hbody : body? (c :: rest) = none) :
    r.resolveText strict index (c :: rest) =
      unresolved strict (notClosed (c :: rest) index) := by
  rw [resolveText, if_pos h]
  split
  · rfl
  · next body hb =>
    rw [hbody] at hb
    cases hb

theorem resolveText_of_expression {c : Char} {rest : Text}
    (h : opensExpression (c :: rest) = true) (hbody : body? (c :: rest) = some body) :
    r.resolveText strict index (c :: rest) =
      match valueRequired strict ((c :: rest).take (expressionLength body)) index
          (r.valueOfBody strict body) with
      | .error e => .error e
      | .ok none => .ok none
      | .ok (some value) =>
        (r.resolveText strict (index + expressionLength body)
          ((c :: rest).drop (expressionLength body))).map (Option.map (value ++ ·)) := by
  rw [resolveText, if_pos h]
  split
  · next hb =>
    rw [hbody] at hb
    cases hb
  · next body' hb =>
    cases hbody.symm.trans hb
    rfl

end

section

variable {r : Resolver} {strict : Bool} {body default value : Text}

theorem valueOfBody_of_defined (hnames : r.lookupFirst (cut ':' body).1 = some value) :
    r.valueOfBody strict body = .ok (some value) := by
  rw [valueOfBody, hnames]

theorem valueOfBody_of_undefined (hnames : r.lookupFirst (cut ':' body).1 = none)
    (hcut : (cut ':' body).2 = none) : r.valueOfBody strict body = .ok none := by
  rw [valueOfBody, hnames]
  dsimp only
  split
  · next default hdefault => cases hcut.symm.trans hdefault
  · rfl

theorem valueOfBody_of_default (hnames : r.lookupFirst (cut ':' body).1 = none)
    (hcut : (cut ':' body).2 = some default) :
    r.valueOfBody strict body = r.resolveText strict 0 default := by
  rw [valueOfBody, hnames]
  dsimp only
  split
  · next other hdefault =>
    cases hcut.symm.trans hdefault
    rfl
  · next hdefault => cases hcut.symm.trans hdefault

end

mutual

theorem eased_resolveText (r : Resolver) (index : Int) (text : Text) :
    Eased (r.resolveText true index text) (r.resolveText false index text) := by
  match text with
  | [] =>
    rw [resolveText_nil, resolveText_nil]
    exact .same _
  | c :: rest =>
    cases h : opensExpression (c :: rest) with
    | false =>
      rw [resolveText_of_plain r true index h, resolveText_of_plain r false index h]
      exact (eased_resolveText r (index + 1) rest).map _
    | true =>
      cases hbody : body? (c :: rest) with
      | none =>
        rw [resolveText_of_open r true index h hbody, resolveText_of_open r false index h hbody]
        exact .unresolved rfl
      | some body =>
        have hlength := body?_length hbody
        rw [resolveText_of_expression r true index h hbody,
          resolveText_of_expression r false index h hbody]
        have hvalue := (eased_valueOfBody r body).valueRequired
          ((c :: rest).take (expressionLength body)) index
        revert hvalue
        generalize valueRequired true _ index (r.valueOfBody true body) = strict
        generalize valueRequired false _ index (r.valueOfBody false body) = lenient
        intro hvalue
        cases hvalue with
        | passed h => exact .passed h
        | same answer =>
          cases answer with
          | none => exact .same _
          | some value => exact (eased_resolveText r _ _).map _
termination_by (text.length, 1)
decreasing_by
  all_goals
    simp only [Prod.lex_def, expressionLength, List.length_cons, List.length_drop] at *
    omega

theorem eased_valueOfBody (r : Resolver) (body : Text) :
    Eased (r.valueOfBody true body) (r.valueOfBody false body) := by
  rw [valueOfBody, valueOfBody]
  cases r.lookupFirst (cut ':' body).1 with
  | some value => exact .same _
  | none =>
    cases h : (cut ':' body).2 with
    | none => exact .same _
    | some default => exact eased_resolveText r 0 default
termination_by (body.length, 0)
decreasing_by
  have := cut_length h
  simp only [Prod.lex_def]
  omega

end

/-! ## What has been found -/

section

variable {α β : Type} {r : Resolver} {strict : Bool} {index : Int}
  {text fragment replacement value : Text}

theorem exists_of_map_eq_some {answer : Resolved α} {f : α → β} {b : β}
    (h : answer.map (Option.map f) = .ok (some b)) : ∃ a, answer = .ok (some a) ∧ f a = b := by
  cases answer with
  | error e => cases h
  | ok found =>
    cases found with
    | none => cases h
    | some a =>
      cases h
      exact ⟨a, rfl, rfl⟩

theorem valueRequired_eq_some {answer : Resolved Text}
    (h : valueRequired strict text index answer = .ok (some value)) :
    answer = .ok (some value) := by
  cases answer with
  | error e => cases h
  | ok found =>
    cases found with
    | none => cases strict <;> cases h
    | some value' => exact h

/-- An expression that is resolved has a closing brace, and the text between its braces has the
value. -/
theorem exists_body_of_resolveExpression
    (h : r.resolveExpression strict index text = .ok (some (fragment, replacement))) :
    ∃ body, body? text = some body ∧ fragment = text.take (expressionLength body) ∧
      r.valueOfBody strict body = .ok (some replacement) := by
  unfold resolveExpression at h
  cases hbody : body? text with
  | none =>
    rw [hbody] at h
    cases strict <;> cases h
  | some body =>
    rw [hbody] at h
    obtain ⟨value, hvalue, hpair⟩ := exists_of_map_eq_some h
    cases hpair
    exact ⟨body, rfl, rfl, valueRequired_eq_some hvalue⟩

/-- A variable that is resolved has a name, which stands in the table. -/
theorem exists_name_of_resolveVariable
    (h : r.resolveVariable strict index text = .ok (some (fragment, replacement))) :
    ∃ table name, r.variableValues = some table ∧ variableName? text = some name ∧
      fragment = '$' :: name ∧ table.lookup name = some replacement := by
  unfold resolveVariable at h
  split at h
  · next table name htable hname =>
    unfold variableIn at h
    cases hvalue : table.lookup name with
    | none =>
      rw [hvalue] at h
      cases strict <;> cases h
    | some value =>
      rw [hvalue] at h
      cases h
      exact ⟨table, name, htable, hname, rfl, hvalue⟩
  · cases h

end

/-! ## Expressions and variables -/

theorem eased_resolveExpression (r : Resolver) (index : Int) (text : Text) :
    Eased (r.resolveExpression true index text) (r.resolveExpression false index text) := by
  unfold resolveExpression
  cases body? text with
  | none => exact .unresolved rfl
  | some body => exact ((eased_valueOfBody r body).valueRequired _ _).map _

theorem eased_variableIn (table : List (Text × Text)) (name : Text) (index : Int) :
    Eased (variableIn table true name index) (variableIn table false name index) := by
  unfold variableIn
  cases table.lookup name with
  | none => exact .unresolved rfl
  | some value => exact .same _

theorem eased_resolveVariable (r : Resolver) (index : Int) (text : Text) :
    Eased (r.resolveVariable true index text) (r.resolveVariable false index text) := by
  unfold resolveVariable
  split
  · exact eased_variableIn _ _ _
  · exact .same _

/-! ## Where there is room -/

section

variable {α : Type} {r : Resolver} {strict : Bool} {index : Int} {text : Text}

theorem ok_of_mapError {answer : Resolved α} {found : Option α}
    (h : answer.mapError Fault.format = .ok found) : answer = .ok found := by
  cases answer with
  | error e => cases h
  | ok found' => exact congrArg Except.ok (Except.ok.inj h)

theorem exists_error_of_mapError {answer : Resolved α} {fault : Fault}
    (h : answer.mapError Fault.format = .error fault) :
    ∃ e, fault = .format e ∧ answer = .error e := by
  cases answer with
  | error e => exact ⟨e, (Except.error.inj h).symm, rfl⟩
  | ok found => cases h

/-- With enough room an expression is resolved as it is without a limit. -/
theorem resolveWithin_of_le (h : r.expressionNesting text ≤ r.nestingLimit) :
    r.resolveWithin strict index text =
      (r.resolveExpression strict index text).mapError .format := by
  rw [resolveWithin, if_neg (Nat.not_lt_of_le h)]

theorem resolveWithin_of_lt (h : r.nestingLimit < r.expressionNesting text) :
    r.resolveWithin strict index text = .error (.defect .nestedTooDeep) := by
  rw [resolveWithin, if_pos h]

theorem resolveExpression_of_resolveWithin {found : Option (Text × Text)}
    (h : r.resolveWithin strict index text = .ok found) :
    r.resolveExpression strict index text = .ok found := by
  unfold resolveWithin at h
  split at h
  · cases h
  · exact ok_of_mapError h

/-- There is no room, or the expression is at fault without a limit as well. -/
theorem resolveWithin_error {fault : Fault}
    (h : r.resolveWithin strict index text = .error fault) :
    r.nestingLimit < r.expressionNesting text ∧ fault = .defect .nestedTooDeep ∨
      ∃ e, fault = .format e ∧ r.resolveExpression strict index text = .error e := by
  unfold resolveWithin at h
  split at h
  · next hdeep => exact .inl ⟨hdeep, (Except.error.inj h).symm⟩
  · exact .inr (exists_error_of_mapError h)

end

/-! ## How deep defaults are nested -/

section

variable (r : Resolver) {c : Char} {text rest body default : Text}

theorem textNesting_nil : r.textNesting [] = 0 := by
  rw [textNesting]

theorem textNesting_of_plain (h : opensExpression (c :: rest) = false) :
    r.textNesting (c :: rest) = r.textNesting rest := by
  rw [textNesting, h]
  rfl

theorem textNesting_of_open (h : opensExpression (c :: rest) = true)
    (hbody : body? (c :: rest) = none) : r.textNesting (c :: rest) = 0 := by
  rw [textNesting, if_pos h]
  split
  · rfl
  · next body hb => cases hbody.symm.trans hb

theorem textNesting_of_expression (h : opensExpression (c :: rest) = true)
    (hbody : body? (c :: rest) = some body) :
    r.textNesting (c :: rest) =
      match r.valueOfBody false body with
      | .ok (some _) =>
        max (r.bodyNesting body) (r.textNesting ((c :: rest).drop (expressionLength body)))
      | _ => r.bodyNesting body := by
  rw [textNesting, if_pos h]
  split
  · next hb => cases hbody.symm.trans hb
  · next body' hb =>
    cases hbody.symm.trans hb
    rfl

theorem bodyNesting_of_default (hnames : r.lookupFirst (cut ':' body).1 = none)
    (hcut : (cut ':' body).2 = some default) :
    r.bodyNesting body = r.textNesting default + 1 := by
  rw [bodyNesting, hnames]
  dsimp only
  split
  · next other hdefault =>
    cases hcut.symm.trans hdefault
    rfl
  · next hdefault => cases hcut.symm.trans hdefault

theorem expressionNesting_of_body? (hbody : body? text = some body) :
    r.expressionNesting text = r.bodyNesting body := by
  rw [expressionNesting, hbody]
  rfl

end

mutual

/-- A default is written with four characters at least around it: the mark of an expression, the
colon and the closing brace. -/
theorem textNesting_le (r : Resolver) (text : Text) : 4 * r.textNesting text ≤ text.length := by
  match text with
  | [] =>
    rw [textNesting_nil]
    exact Nat.le_refl 0
  | c :: rest =>
    cases h : opensExpression (c :: rest) with
    | false =>
      have hrest := textNesting_le r rest
      rw [textNesting_of_plain r h, List.length_cons]
      omega
    | true =>
      cases hbody : body? (c :: rest) with
      | none =>
        rw [textNesting_of_open r h hbody]
        exact Nat.zero_le _
      | some body =>
        have hlength := body?_length hbody
        have hinner : 4 * r.bodyNesting body ≤ (c :: rest).length :=
          Nat.le_trans (bodyNesting_le r body) hlength
        have hlater : 4 * r.textNesting ((c :: rest).drop (expressionLength body)) ≤
            (c :: rest).length :=
          Nat.le_trans (textNesting_le r _) (List.drop_sublist _ _).length_le
        rw [textNesting_of_expression r h hbody]
        split
        · rw [Nat.max_def]
          split
          · exact hlater
          · exact hinner
        · exact hinner
termination_by (text.length, 1)
decreasing_by
  all_goals
    simp only [Prod.lex_def, expressionLength, List.length_cons, List.length_drop] at *
    omega

theorem bodyNesting_le (r : Resolver) (body : Text) :
    4 * r.bodyNesting body ≤ body.length + 3 := by
  cases hnames : r.lookupFirst (cut ':' body).1 with
  | some value =>
    rw [bodyNesting, hnames]
    exact Nat.zero_le _
  | none =>
    cases hcut : (cut ':' body).2 with
    | none =>
      rw [bodyNesting, hnames]
      dsimp only
      split
      · next default hdefault => cases hcut.symm.trans hdefault
      · exact Nat.zero_le _
    | some default =>
      have hdefault := textNesting_le r default
      have hlength := cut_length hcut
      rw [bodyNesting_of_default r hnames hcut]
      omega
termination_by (body.length, 0)
decreasing_by
  have := cut_length hcut
  simp only [Prod.lex_def]
  omega

end

theorem expressionNesting_le (r : Resolver) (text : Text) :
    4 * r.expressionNesting text ≤ text.length := by
  cases hbody : body? text with
  | none =>
    rw [expressionNesting, hbody]
    exact Nat.zero_le _
  | some body =>
    rw [expressionNesting_of_body? r hbody]
    exact Nat.le_trans (r.bodyNesting_le body) (body?_length hbody)

/-- A short text has room for its defaults. -/
theorem resolveWithin_of_length_le {r : Resolver} {strict : Bool} {index : Int} {text : Text}
    (h : text.length ≤ 4 * r.nestingLimit) :
    r.resolveWithin strict index text =
      (r.resolveExpression strict index text).mapError .format := by
  have hle := r.expressionNesting_le text
  exact resolveWithin_of_le (by omega)

/-- Lenient resolving passes over an error about the line. -/
def passOver : Located → Located
  | .error (.format _) => .ok none
  | answer => answer

theorem passOver_of_eased {strict lenient : Resolved (Text × Text)} (h : Eased strict lenient) :
    passOver (strict.mapError .format) = lenient.mapError .format := by
  cases h <;> rfl

theorem passOver_resolveWithin (r : Resolver) (index : Int) (text : Text) :
    passOver (r.resolveWithin true index text) = r.resolveWithin false index text := by
  unfold resolveWithin
  split
  · rfl
  · exact passOver_of_eased (eased_resolveExpression r index text)

end Resolver

/-! ## At the cursor -/

/-- The same footing without strictness. -/
def Footing.lenient (f : Footing) : Footing := { f with strict := false }

/-- What becomes of a fault of strict resolving when resolving is lenient. -/
def Fault.lenient? : Fault → Option Fault
  | .format _ => none
  | fault => some fault

namespace Context

variable {σ : Type} {c : Context σ}

/-- The same context of a lenient run. -/
def ease (c : Context σ) : Context σ := c.onto c.footing.lenient

theorem resolveHere_ease (h : c.strict = true) :
    c.ease.resolveHere = Resolver.passOver c.resolveHere := by
  have hinput : c.ease.input.drop c.ease.location = c.input.drop c.location := rfl
  unfold resolveHere
  rw [hinput, h]
  split
  · show (if c.settings.resolvesExpressions then _ else _) =
      Resolver.passOver (if c.settings.resolvesExpressions then _ else _)
    split
    · exact (Resolver.passOver_resolveWithin _ _ _).symm
    · rfl
  · exact (Resolver.passOver_of_eased (Resolver.eased_resolveVariable _ _ _)).symm
  · rfl

/-- Lenient resolving does what strict resolving does up to its error, and goes on; where there is
no room it fails as strict resolving does. -/
theorem resolveRounds_ease (rounds : Nat) (h : c.strict = true) :
    c.ease.resolveRounds rounds =
      ((c.resolveRounds rounds).1.ease, (c.resolveRounds rounds).2.bind Fault.lenient?) := by
  induction rounds generalizing c with
  | zero => rfl
  | succ rounds ih =>
    simp only [resolveRounds, resolveHere_ease h]
    rcases c.resolveHere with fault | _ | ⟨fragment, replacement⟩
    · cases fault <;> rfl
    · rfl
    · by_cases hr : replacement.isEmpty
      · simp only [Resolver.passOver, if_pos hr]
        exact ih (c := { c with line := c.line.substitute fragment replacement c.location }) h
      · simp only [Resolver.passOver, if_neg hr]
        rfl

theorem resolve_ease (h : c.strict = true) :
    c.ease.resolve = (c.resolve.1.ease, c.resolve.2.bind Fault.lenient?) :=
  resolveRounds_ease _ h

/-- Substitution changes the line only. -/
theorem resolveRounds_eq (rounds : Nat) (c : Context σ) :
    (c.resolveRounds rounds).1 = { c with line := (c.resolveRounds rounds).1.line } := by
  induction rounds generalizing c with
  | zero => rfl
  | succ rounds ih =>
    simp only [resolveRounds]
    split
    · rfl
    · rfl
    · split
      · rw [ih]
      · rfl

theorem strict_resolveRounds (rounds : Nat) : (c.resolveRounds rounds).1.strict = c.strict := by
  rw [resolveRounds_eq]

/-- Without anything to substitute nothing is found at the cursor. -/
theorem resolveHere_of_plain (h : c.settings.substitutes = false) : c.resolveHere = .ok none := by
  rw [Settings.substitutes, Bool.or_eq_false_iff] at h
  obtain ⟨hexpressions, hvariables⟩ := h
  have htable : c.settings.resolver.variableValues = none := by
    cases htable : c.settings.resolver.variableValues with
    | none => rfl
    | some table => rw [htable] at hvariables; cases hvariables
  unfold resolveHere
  split
  · rw [hexpressions]
    rfl
  · rw [Resolver.resolveVariable, htable]
    rfl
  · rfl

/-- What is found depends on the footing and the cursor only. -/
theorem resolveHere_congr {d : Context σ} (hfooting : c.footing = d.footing)
    (hlocation : c.location = d.location) : c.resolveHere = d.resolveHere := by
  have hsettings : c.settings = d.settings := congrArg Footing.settings hfooting
  have hstrict : c.strict = d.strict := congrArg Footing.strict hfooting
  have hinput : c.input = d.input := congrArg (fun f => f.line.substituted) hfooting
  rw [resolveHere, resolveHere, hsettings, hstrict, hinput, hlocation]

/-- Where nothing is found nothing changes. -/
theorem resolve_of_none (h : c.resolveHere = .ok none) : c.resolve = (c, none) := by
  rw [resolve]
  cases c.input.length with
  | zero => rfl
  | succ rounds => simp only [resolveRounds, h]

theorem resolve_of_plain (h : c.settings.substitutes = false) : c.resolve = (c, none) :=
  resolve_of_none (resolveHere_of_plain h)

/-- An expression stands at the cursor, and its defaults stand in one another too deep. -/
structure NestsTooDeep (c : Context σ) : Prop where
  enabled : c.settings.resolvesExpressions = true
  opens : opensExpression (c.input.drop c.location) = true
  exceeds : c.settings.resolver.nestingLimit <
    c.settings.resolver.expressionNesting (c.input.drop c.location)

/-- How resolving at the cursor can fail: on something unresolved, and then it is strict, or for
want of room. -/
inductive Refuses (c : Context σ) : Fault → Prop
  | unresolved {e : FormatError} (hstrict : c.strict = true) (h : e.isUnresolved = true) :
    Refuses c (.format e)
  | tooDeep (h : c.NestsTooDeep) : Refuses c (.defect .nestedTooDeep)

theorem refuses_of_resolveHere {fault : Fault} (h : c.resolveHere = .error fault) :
    c.Refuses fault := by
  unfold resolveHere at h
  split at h
  · next rest htext =>
    split at h
    · next hon =>
      obtain ⟨hdeep, rfl⟩ | ⟨e, rfl, he⟩ := Resolver.resolveWithin_error h
      · exact .tooDeep ⟨hon, htext ▸ rfl, htext ▸ hdeep⟩
      · obtain ⟨hstrict, hunresolved⟩ :=
          Eased.of_error (f := (c.settings.resolver.resolveExpression · _ _))
            (Resolver.eased_resolveExpression _ _ _) he
        exact .unresolved hstrict hunresolved
    · cases h
  · obtain ⟨e, rfl, he⟩ := Resolver.exists_error_of_mapError h
    obtain ⟨hstrict, hunresolved⟩ :=
      Eased.of_error (f := (c.settings.resolver.resolveVariable · _ _))
        (Resolver.eased_resolveVariable _ _ _) he
    exact .unresolved hstrict hunresolved
  · cases h

/-- The rounds of resolving fail at the place that they have come to. -/
theorem refuses_of_resolveRounds {rounds : Nat} {fault : Fault}
    (h : (c.resolveRounds rounds).2 = some fault) : (c.resolveRounds rounds).1.Refuses fault := by
  induction rounds generalizing c with
  | zero => cases h
  | succ rounds ih =>
    simp only [resolveRounds] at h ⊢
    cases hc : c.resolveHere with
    | error fault' =>
      rw [hc] at h
      cases h
      exact refuses_of_resolveHere hc
    | ok found =>
      rw [hc] at h
      cases found with
      | none => cases h
      | some found =>
        by_cases hr : found.2.isEmpty
        · simp only [if_pos hr] at h ⊢
          exact ih h
        · simp only [if_neg hr] at h
          cases h

theorem refuses_of_resolve {fault : Fault} (h : c.resolve.2 = some fault) :
    c.resolve.1.Refuses fault :=
  refuses_of_resolveRounds h

end Context
end CommandLine
