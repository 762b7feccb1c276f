/-
# `CommandLine.Proofs.ResolvedText` — resolving a text comes to an end, and goes part by part

Three functions resolve expressions, and they call each other: a text asks for the value of every
expression in it, an expression for the value of what stands between its braces, and when that comes
down to a default the default is a text again.

    resolveText          one round for a character, or for an expression as a whole
    resolveExpression    one call, on the text between the braces
    valueOfBody          at most one call, on the default

`Returns` has a rule for each round and for each way in which a call comes back, and no measure that
would make it end.  A call that went on for ever would return nothing.  Every call returns, and the
rounds and calls that it takes are at most one more than the characters it is given: what a default
holds is passed over in the text around it, so no character is gone through twice
(`exists_returns`, `Returns.steps_le`).

The second part is about a text that is put together from two, the first of which has a value.  The
seam cuts no expression, for one that starts before it is closed before it (`body?_append`).  Only
the mark of an expression must not be divided: `$` and `{a}` stay as they are, and `${a}` does not.

    back is resolved to    front ++ back is resolved to
    a value                the two values, one after the other
    nothing                nothing
    an error               an error about the same expression

The two errors are the same up to the offset, which is counted from the start of the whole text if
the expression stands in it directly, and from the start of a default otherwise (`Displaced`).
-/
import CommandLine.Proofs.Unresolved
import CommandLine.Proofs.Verbatim

namespace CommandLine

open Text

namespace Resolver

/-! ## Calls -/

/-- A call of one of the three functions that resolve expressions. -/
inductive Call where
  /-- All expressions of a text that starts at an index. -/
  | text (index : Int) (text : Text)
  /-- The expression that the text from an index on starts with. -/
  | expression (index : Int) (text : Text)
  /-- What stands between the braces of an expression. -/
  | body (body : Text)

namespace Call

/-- The text that a call is given. -/
def given : Call → Text
  | .text _ whole => whole
  | .expression _ rest => rest
  | .body inner => inner

/-- What a call can answer. -/
abbrev Answer : Call → Type
  | .text _ _ | .body _ => Resolved Text
  | .expression _ _ => Resolved (Text × Text)

/-- How many rounds and calls a call can take.  An expression takes fewer than it has characters. -/
def limit : Call → Nat
  | .text _ whole => whole.length + 1
  | .expression _ rest =>
    match body? rest with
    | some inner => inner.length + 2
    | none => 1
  | .body inner => inner.length + 1

theorem limit_of_body? {index : Int} {rest inner : Text} (h : body? rest = some inner) :
    (expression index rest).limit = inner.length + 2 := by
  rw [limit, h]

theorem limit_of_unclosed {index : Int} {rest : Text} (h : body? rest = none) :
    (expression index rest).limit = 1 := by
  rw [limit, h]

theorem limit_expression_le (index : Int) (rest : Text) :
    (expression index rest).limit ≤ max 1 rest.length := by
  cases h : body? rest with
  | none =>
    rw [limit_of_unclosed h]
    exact Nat.le_max_left _ _
  | some inner =>
    have hlength := body?_length h
    rw [expressionLength] at hlength
    rw [limit_of_body? h]
    omega

theorem limit_le (call : Call) : call.limit ≤ call.given.length + 1 := by
  cases call with
  | text => exact Nat.le_refl _
  | body => exact Nat.le_refl _
  | expression index rest =>
    have hlimit := limit_expression_le index rest
    rw [given]
    omega

end Call

/-- What the function that is called answers. -/
def answer (r : Resolver) (strict : Bool) : (call : Call) → call.Answer
  | .text index text => r.resolveText strict index text
  | .expression index text => r.resolveExpression strict index text
  | .body body => r.valueOfBody strict body

/-- A call returns with an answer after a number of rounds and calls. -/
inductive Returns (r : Resolver) (strict : Bool) : Nat → (call : Call) → call.Answer → Prop
  /-- Nothing is left of the text. -/
  | finished (index : Int) : Returns r strict 1 (.text index []) (.ok (some []))
  /-- A character that starts no expression stays. -/
  | plain {steps : Nat} {index : Int} {c : Char} {rest : Text} {found : Resolved Text}
    (hplain : opensExpression (c :: rest) = false)
    (hrest : Returns r strict steps (.text (index + 1) rest) found) :
    Returns r strict (steps + 1) (.text index (c :: rest)) (found.map (Option.map (c :: ·)))
  /-- An error about the expression at the start is one about the text. -/
  | failed {steps : Nat} {index : Int} {text : Text} {e : FormatError}
    (hopens : opensExpression text = true)
    (hfirst : Returns r strict steps (.expression index text) (.error e)) :
    Returns r strict (steps + 1) (.text index text) (.error e)
  /-- An expression without a value ends the text. -/
  | stopped {steps : Nat} {index : Int} {text : Text} (hopens : opensExpression text = true)
    (hfirst : Returns r strict steps (.expression index text) (.ok none)) :
    Returns r strict (steps + 1) (.text index text) (.ok none)
  /-- An expression with a value is passed over. -/
  | replaced {first later : Nat} {index : Int} {text fragment value : Text}
    {found : Resolved Text} (hopens : opensExpression text = true)
    (hfirst : Returns r strict first (.expression index text) (.ok (some (fragment, value))))
    (hlater : Returns r strict later
      (.text (index + fragment.length) (text.drop fragment.length)) found) :
    Returns r strict (first + later + 1) (.text index text) (found.map (Option.map (value ++ ·)))
  /-- An expression has no closing brace. -/
  | unclosed {index : Int} {text : Text} (hbody : body? text = none) :
    Returns r strict 1 (.expression index text) (unresolved strict (notClosed text index))
  /-- An expression has the value of what stands between its braces. -/
  | closed {steps : Nat} {index : Int} {text body : Text} {found : Resolved Text}
    (hbody : body? text = some body) (hvalue : Returns r strict steps (.body body) found) :
    Returns r strict (steps + 1) (.expression index text)
      ((valueRequired strict (text.take (expressionLength body)) index found).map
        (Option.map (text.take (expressionLength body), ·)))
  /-- One of the names is defined. -/
  | defined {body value : Text} (hnames : r.lookupFirst (cut ':' body).1 = some value) :
    Returns r strict 1 (.body body) (.ok (some value))
  /-- No name is defined, and there is no default. -/
  | undefined {body : Text} (hnames : r.lookupFirst (cut ':' body).1 = none)
    (hcut : (cut ':' body).2 = none) : Returns r strict 1 (.body body) (.ok none)
  /-- The default stands for names that are not defined. -/
  | defaulted {steps : Nat} {body default : Text} {found : Resolved Text}
    (hnames : r.lookupFirst (cut ':' body).1 = none) (hcut : (cut ':' body).2 = some default)
    (hdefault : Returns r strict steps (.text 0 default) found) :
    Returns r strict (steps + 1) (.body body) found

section

variable {r : Resolver} {strict : Bool} {index : Int} {text body fragment value default : Text}
  {steps : Nat} {call : Call}

/-! ## What the rules say is what the functions answer -/

/-- What is resolved is the whole expression. -/
theorem length_of_resolveExpression
    (h : r.resolveExpression strict index text = .ok (some (fragment, value))) :
    ∃ body, body? text = some body ∧ fragment.length = expressionLength body := by
  obtain ⟨body, hbody, rfl, -⟩ := exists_body_of_resolveExpression h
  exact ⟨body, hbody, List.length_take_of_le (body?_length hbody)⟩

/-- A text that starts with an expression is resolved by resolving the expression and what comes
after it. -/
theorem resolveText_of_opens (hopens : opensExpression text = true) :
    r.resolveText strict index text =
      match r.resolveExpression strict index text with
      | .error e => .error e
      | .ok none => .ok none
      | .ok (some (fragment, value)) =>
        (r.resolveText strict (index + fragment.length) (text.drop fragment.length)).map
          (Option.map (value ++ ·)) := by
  cases text with
  | nil => cases hopens
  | cons c rest =>
    cases hbody : body? (c :: rest) with
    | none =>
      rw [resolveText_of_open r strict index hopens hbody, resolveExpression, hbody]
      cases strict <;> rfl
    | some body =>
      have hlength : ((c :: rest).take (expressionLength body)).length = expressionLength body :=
        List.length_take_of_le (body?_length hbody)
      rw [resolveText_of_expression r strict index hopens hbody, resolveExpression, hbody]
      dsimp only
      cases valueRequired strict ((c :: rest).take (expressionLength body)) index
          (r.valueOfBody strict body) with
      | error e => rfl
      | ok found =>
        cases found with
        | none => rfl
        | some value =>
          show _ = (r.resolveText strict
            (index + ((c :: rest).take (expressionLength body)).length)
            ((c :: rest).drop ((c :: rest).take (expressionLength body)).length)).map _
          rw [hlength]

theorem resolveExpression_of_body? (hbody : body? text = some body) :
    r.resolveExpression strict index text =
      (valueRequired strict (text.take (expressionLength body)) index
        (r.valueOfBody strict body)).map (Option.map (text.take (expressionLength body), ·)) := by
  rw [resolveExpression, hbody]

theorem resolveExpression_of_unclosed (hbody : body? text = none) :
    r.resolveExpression strict index text = unresolved strict (notClosed text index) := by
  rw [resolveExpression, hbody]

/-- What a call returns is what the function answers. -/
theorem Returns.eq_answer {found : call.Answer} (h : r.Returns strict steps call found) :
    found = r.answer strict call := by
  induction h with
  | finished index => exact (resolveText_nil r strict index).symm
  | plain hplain _ ih => exact ih ▸ (resolveText_of_plain r strict _ hplain).symm
  | failed hopens _ ih =>
    have hfirst : r.resolveExpression strict _ _ = .error _ := ih.symm
    exact ((resolveText_of_opens hopens).trans (by rw [hfirst])).symm
  | stopped hopens _ ih =>
    have hfirst : r.resolveExpression strict _ _ = .ok none := ih.symm
    exact ((resolveText_of_opens hopens).trans (by rw [hfirst])).symm
  | replaced hopens _ _ ihfirst ihlater =>
    have hfirst : r.resolveExpression strict _ _ = .ok (some _) := ihfirst.symm
    exact ihlater ▸ ((resolveText_of_opens hopens).trans (by rw [hfirst]; rfl)).symm
  | unclosed hbody => exact (resolveExpression_of_unclosed hbody).symm
  | closed hbody _ ih => exact ih ▸ (resolveExpression_of_body? hbody).symm
  | defined hnames => exact (valueOfBody_of_defined hnames).symm
  | undefined hnames hcut => exact (valueOfBody_of_undefined hnames hcut).symm
  | defaulted hnames hcut _ ih => exact ih.trans (valueOfBody_of_default hnames hcut).symm

/-- A text that starts with an expression has more characters than the expression takes rounds and
calls. -/
theorem limit_lt_of_opens (hopens : opensExpression text = true) :
    (Call.expression index text).limit < (Call.text index text).limit := by
  obtain ⟨rest, rfl⟩ := List.isPrefixOf_iff_prefix.1 hopens
  have hlimit := Call.limit_expression_le index (['$', '{'] ++ rest)
  rw [List.length_append] at hlimit
  rw [Call.limit, List.length_append]
  show _ < 2 + rest.length + 1
  have htwo : ['$', '{'].length = 2 := rfl
  omega

/-- A call returns within its limit.  An expression that is passed over leaves to the rest of the
text what it does not need itself. -/
theorem Returns.steps_le_limit {found : call.Answer} (h : r.Returns strict steps call found) :
    steps ≤ call.limit := by
  induction h with
  | finished index => exact Nat.le_refl 1
  | plain _ _ ih => exact Nat.succ_le_succ ih
  | failed hopens _ ih => exact Nat.lt_of_le_of_lt ih (limit_lt_of_opens hopens)
  | stopped hopens _ ih => exact Nat.lt_of_le_of_lt ih (limit_lt_of_opens hopens)
  | replaced hopens hfirst hlater ihfirst ihlater =>
    -- of the three characters besides the body one pays for this round and one for the call
    obtain ⟨body, hbody, hfragment⟩ := length_of_resolveExpression hfirst.eq_answer.symm
    have hlength := body?_length hbody
    rw [Call.limit_of_body? hbody] at ihfirst
    rw [Call.limit, List.length_drop, hfragment] at ihlater
    rw [expressionLength] at hlength ihlater
    rw [Call.limit]
    omega
  | unclosed hbody => exact Nat.le_of_eq (Call.limit_of_unclosed hbody).symm
  | closed hbody _ ih =>
    rw [Call.limit_of_body? hbody]
    exact Nat.succ_le_succ ih
  | defined => exact Nat.le_add_left 1 _
  | undefined => exact Nat.le_add_left 1 _
  | defaulted _ hcut _ ih =>
    exact Nat.le_trans (Nat.succ_le_succ ih) (Nat.succ_le_succ (cut_length hcut))

theorem Returns.steps_le {found : call.Answer} (h : r.Returns strict steps call found) :
    steps ≤ call.given.length + 1 :=
  Nat.le_trans h.steps_le_limit call.limit_le

/-! ## Every call returns -/

/-- The call returns. -/
def Ends (r : Resolver) (strict : Bool) (call : Call) : Prop :=
  ∃ steps found, r.Returns strict steps call found

/-- The rounds of a text: it is at its end, starts with a character that stays, or starts with an
expression, which may ask for anything about shorter texts. -/
@[elab_as_elim]
theorem rounds_induction {motive : Text → Prop} (finished : motive [])
    (plain : ∀ c rest, opensExpression (c :: rest) = false → motive rest → motive (c :: rest))
    (opening : ∀ text : Text, opensExpression text = true →
      (∀ shorter : Text, shorter.length < text.length → motive shorter) → motive text)
    (text : Text) : motive text := by
  -- the induction is on the length, as what comes after an expression is more than one step away
  induction hn : text.length using Nat.strong_induction_on generalizing text with
  | _ n ih =>
    subst hn
    cases hopens : opensExpression text with
    | true => exact opening text hopens fun shorter hlt => ih _ hlt shorter rfl
    | false =>
      cases text with
      | nil => exact finished
      | cons c rest => exact plain c rest hopens (ih _ (Nat.lt_succ_self _) rest rfl)

theorem ends_body
    (hdefault : ∀ default, (cut ':' body).2 = some default → r.Ends strict (.text 0 default)) :
    r.Ends strict (.body body) := by
  cases hnames : r.lookupFirst (cut ':' body).1 with
  | some value => exact ⟨1, _, .defined hnames⟩
  | none =>
    cases hcut : (cut ':' body).2 with
    | none => exact ⟨1, _, .undefined hnames hcut⟩
    | some default =>
      obtain ⟨steps, found, hsteps⟩ := hdefault default hcut
      exact ⟨steps + 1, found, .defaulted hnames hcut hsteps⟩

theorem ends_expression (hvalue : ∀ body, body? text = some body → r.Ends strict (.body body)) :
    r.Ends strict (.expression index text) := by
  cases hbody : body? text with
  | none => exact ⟨1, _, .unclosed hbody⟩
  | some body =>
    obtain ⟨steps, found, hsteps⟩ := hvalue body hbody
    exact ⟨steps + 1, _, .closed hbody hsteps⟩

theorem ends_text_of_opens (hopens : opensExpression text = true)
    (hfirst : r.Ends strict (.expression index text))
    (hlater : ∀ fragment value,
      r.resolveExpression strict index text = .ok (some (fragment, value)) →
        r.Ends strict (.text (index + fragment.length) (text.drop fragment.length))) :
    r.Ends strict (.text index text) := by
  obtain ⟨first, found, hfirst⟩ := hfirst
  match found with
  | .error e => exact ⟨first + 1, _, .failed hopens hfirst⟩
  | .ok none => exact ⟨first + 1, _, .stopped hopens hfirst⟩
  | .ok (some (fragment, value)) =>
    obtain ⟨later, found, hlater⟩ := hlater fragment value hfirst.eq_answer.symm
    exact ⟨first + later + 1, _, .replaced hopens hfirst hlater⟩

/-- What comes after an expression is shorter than the text that starts with it. -/
theorem length_drop_lt (h : r.resolveExpression strict index text = .ok (some (fragment, value))) :
    (text.drop fragment.length).length < text.length := by
  obtain ⟨body, hbody, hlength⟩ := length_of_resolveExpression h
  have hle := body?_length hbody
  rw [expressionLength] at hlength hle
  rw [List.length_drop]
  omega

/-- A text ends because everything that it asks for is about a shorter text. -/
theorem ends_text (r : Resolver) (strict : Bool) (index : Int) (text : Text) :
    r.Ends strict (.text index text) := by
  induction text using rounds_induction generalizing index with
  | finished => exact ⟨1, _, .finished index⟩
  | plain c rest hplain ih =>
    obtain ⟨steps, found, hsteps⟩ := ih (index + 1)
    exact ⟨steps + 1, _, .plain hplain hsteps⟩
  | opening text hopens ih =>
    refine ends_text_of_opens hopens (ends_expression fun body hbody => ends_body ?_) ?_
    · intro default hcut
      have hinner := body?_length hbody
      have hshorter := cut_length hcut
      rw [expressionLength] at hinner
      exact ih default (by omega) 0
    · intro fragment value hfirst
      exact ih _ (length_drop_lt hfirst) _

/-- Every call returns, with what the function answers. -/
theorem exists_returns (r : Resolver) (strict : Bool) (call : Call) :
    ∃ steps, r.Returns strict steps call (r.answer strict call) := by
  have hbody (body : Text) : r.Ends strict (.body body) :=
    ends_body fun default _ => ends_text r strict 0 default
  have hends : r.Ends strict call := by
    cases call with
    | text index text => exact ends_text r strict index text
    | expression index text => exact ends_expression fun body _ => hbody body
    | body body => exact hbody body
  obtain ⟨steps, found, hsteps⟩ := hends
  exact ⟨steps, hsteps.eq_answer ▸ hsteps⟩

end
end Resolver

/-! ## The same text at another place -/

/-- The error about an expression, some distance further on. -/
def FormatError.displace (distance : Int) : FormatError → FormatError
  | .expressionNotClosed rest shown start => .expressionNotClosed rest shown (start + distance)
  | .unresolvedExpression expression start => .unresolvedExpression expression (start + distance)
  | e => e

namespace FormatError

variable (distance : Int) (e : FormatError)

theorem fragment_displace : (e.displace distance).fragment = e.fragment := by
  cases e <;> rfl

theorem message_displace : (e.displace distance).message = e.message := by
  cases e <;> rfl

end FormatError

/-- An answer about a text, and the answer about the same text some distance further on.  An error
about an expression of the text moves with it, and one about an expression in a default does not. -/
inductive Displaced (distance : Int) {α : Type} : Resolved α → Resolved α → Prop
  | same (answer : Resolved α) : Displaced distance answer answer
  | moved (e : FormatError) : Displaced distance (.error e) (.error (e.displace distance))

namespace Displaced

variable {α β : Type} {distance : Int} {here there : Resolved α}

theorem map (h : Displaced distance here there) (f : α → β) :
    Displaced distance (here.map (Option.map f)) (there.map (Option.map f)) := by
  cases h with
  | same => exact .same _
  | moved e => exact .moved e

theorem unresolved (strict : Bool) (e : FormatError) :
    Displaced distance (CommandLine.unresolved strict e : Resolved α)
      (CommandLine.unresolved strict (e.displace distance)) := by
  cases strict with
  | true => exact .moved e
  | false => exact .same _

theorem valueRequired (strict : Bool) (expression : Text) (index : Int) (answer : Resolved Text) :
    Displaced distance (Resolver.valueRequired strict expression index answer)
      (Resolver.valueRequired strict expression (index + distance) answer) := by
  cases answer with
  | error e => exact .same _
  | ok found =>
    cases found with
    | none => exact .unresolved strict (.unresolvedExpression expression index)
    | some value => exact .same _

/-- Nothing but an error tells the two places apart. -/
theorem eq_of_ok {found : Option α} (h : Displaced distance (.ok found) there) :
    there = .ok found := by
  cases h
  rfl

theorem exists_of_error {e : FormatError} (h : Displaced distance (.error e) there) :
    ∃ e', there = .error e' ∧ (e' = e ∨ e' = e.displace distance) := by
  cases h with
  | same => exact ⟨e, rfl, .inl rfl⟩
  | moved => exact ⟨_, rfl, .inr rfl⟩

end Displaced

namespace Resolver

theorem displaced_resolveExpression (r : Resolver) (strict : Bool) (distance index : Int)
    (text : Text) : Displaced distance (r.resolveExpression strict index text)
      (r.resolveExpression strict (index + distance) text) := by
  unfold resolveExpression
  cases body? text with
  | none => exact .unresolved strict (notClosed text index)
  | some body => exact (Displaced.valueRequired strict _ index _).map _

/-- Where a text starts makes no difference but to the offset of an error. -/
theorem displaced_resolveText (r : Resolver) (strict : Bool) (distance index : Int) (text : Text) :
    Displaced distance (r.resolveText strict index text)
      (r.resolveText strict (index + distance) text) := by
  induction text using rounds_induction generalizing index with
  | finished =>
    rw [resolveText_nil, resolveText_nil]
    exact .same _
  | plain c rest hplain ih =>
    rw [resolveText_of_plain r strict index hplain, resolveText_of_plain r strict _ hplain,
      Int.add_right_comm]
    exact (ih (index + 1)).map _
  | opening text hopens ih =>
    have hfirst := displaced_resolveExpression r strict distance index text
    rw [resolveText_of_opens hopens, resolveText_of_opens hopens]
    cases hexpression : r.resolveExpression strict index text with
    | error e =>
      rw [hexpression] at hfirst
      -- the error is in a default, or it is about this expression
      obtain ⟨e', hmoved, rfl | rfl⟩ := hfirst.exists_of_error
      · rw [hmoved]
        exact .same _
      · rw [hmoved]
        exact .moved e
    | ok found =>
      rw [hexpression] at hfirst
      rw [hfirst.eq_of_ok]
      match found with
      | none => exact .same _
      | some (fragment, value) =>
        dsimp only
        rw [Int.add_right_comm]
        exact (ih _ (length_drop_lt hexpression) _).map _

end Resolver

/-! ## Two texts put together -/

/-- The mark that opens an expression is divided between two texts. -/
def Text.DivideMark (front back : Text) : Prop :=
  front.getLast? = some '$' ∧ back.head? = some '{'

instance (front back : Text) : Decidable (front.DivideMark back) :=
  inferInstanceAs (Decidable (_ ∧ _))

section

variable {front back body value : Text} {depth k n : Nat}

theorem Text.DivideMark.of_drop (h : Text.DivideMark (front.drop n) back) :
    front.DivideMark back := by
  obtain ⟨hdollar, hbrace⟩ := h
  rw [List.getLast?_drop] at hdollar
  split at hdollar
  · cases hdollar
  · exact ⟨hdollar, hbrace⟩

theorem opensExpression_append (h : opensExpression front = true) (back : Text) :
    opensExpression (front ++ back) = true := by
  rw [opensExpression, List.isPrefixOf_iff_prefix] at h ⊢
  exact h.trans (List.prefix_append front back)

/-- Where the mark is not divided, no expression starts with the last character before the seam. -/
theorem opensExpression_append_of_plain {c : Char} {rest : Text}
    (hplain : opensExpression (c :: rest) = false) (hwhole : ¬ Text.DivideMark (c :: rest) back) :
    opensExpression (c :: (rest ++ back)) = false := by
  cases rest with
  | cons d tail => exact hplain
  | nil =>
    cases back with
    | nil => exact hplain
    | cons d tail =>
      rw [Bool.eq_false_iff]
      intro hopens
      obtain ⟨after, hafter⟩ := List.isPrefixOf_iff_prefix.1 hopens
      cases hafter
      exact hwhole ⟨rfl, rfl⟩

theorem closingBrace_append (h : closingBrace depth front = some k) (back : Text) :
    closingBrace depth (front ++ back) = some k :=
  closingBrace_congr h (List.take_append_of_le_length (closingBrace_lt h))

/-- An expression that is closed before the seam ends there. -/
theorem body?_append (h : body? front = some body) (back : Text) :
    body? (front ++ back) = some body := by
  have hlength := body?_length h
  obtain ⟨k, hk, rfl⟩ := Option.map_eq_some_iff.1 h
  rw [expressionLength] at hlength
  rw [body?, List.drop_append_of_le_length (by omega), closingBrace_append hk, Option.map_some,
    List.take_append_of_le_length (Nat.le_of_lt (closingBrace_lt hk))]

namespace Resolver

theorem resolveExpression_append {r : Resolver} {strict : Bool} {index : Int}
    (h : body? front = some body) (back : Text) :
    r.resolveExpression strict index (front ++ back) = r.resolveExpression strict index front := by
  rw [resolveExpression_of_body? h, resolveExpression_of_body? (body?_append h back),
    List.take_append_of_le_length (body?_length h)]

/-- Two values are put in front of an answer one by one or together. -/
theorem map_map_append (first later : Text) (answer : Resolved Text) :
    (answer.map (Option.map (later ++ ·))).map (Option.map (first ++ ·)) =
      answer.map (Option.map ((first ++ later) ++ ·)) := by
  match answer with
  | .error e => rfl
  | .ok none => rfl
  | .ok (some last) =>
    show Except.ok (some (first ++ (later ++ last))) = Except.ok (some (first ++ later ++ last))
    rw [List.append_assoc]

/-- What comes after a text that has a value is resolved as the text that it is, from where it
starts. -/
theorem resolveText_append (r : Resolver) (strict : Bool) {index : Int}
    (hwhole : ¬ front.DivideMark back)
    (hfront : r.resolveText strict index front = .ok (some value)) :
    r.resolveText strict index (front ++ back) =
      (r.resolveText strict (index + front.length) back).map (Option.map (value ++ ·)) := by
  induction front using rounds_induction generalizing index value with
  | finished =>
    rw [resolveText_nil] at hfront
    cases hfront
    rw [List.nil_append, List.length_nil, Int.natCast_zero, Int.add_zero]
    match r.resolveText strict index back with
    | .error e => rfl
    | .ok none => rfl
    | .ok (some last) => rfl
  | plain c rest hplain ih =>
    rw [resolveText_of_plain r strict index hplain] at hfront
    obtain ⟨later, hrest, rfl⟩ := exists_of_map_eq_some hfront
    have hbehind : ¬ Text.DivideMark rest back := fun h =>
      hwhole (Text.DivideMark.of_drop (n := 1) h)
    rw [List.cons_append,
      resolveText_of_plain r strict index (opensExpression_append_of_plain hplain hwhole),
      ih hbehind hrest, List.length_cons, Int.natCast_succ, Int.add_assoc, Int.add_comm 1]
    exact map_map_append [c] later _
  | opening front hopens ih =>
    rw [resolveText_of_opens hopens] at hfront
    match hexpression : r.resolveExpression strict index front with
    | .error e =>
      rw [hexpression] at hfront
      cases hfront
    | .ok none =>
      rw [hexpression] at hfront
      cases hfront
    | .ok (some (fragment, first)) =>
      rw [hexpression] at hfront
      obtain ⟨later, hrest, rfl⟩ := exists_of_map_eq_some hfront
      obtain ⟨body, hbody, hlength⟩ := length_of_resolveExpression hexpression
      have hinside : fragment.length ≤ front.length := hlength ▸ body?_length hbody
      rw [resolveText_of_opens (opensExpression_append hopens back),
        resolveExpression_append hbody, hexpression]
      dsimp only
      rw [List.drop_append_of_le_length hinside,
        ih _ (length_drop_lt hexpression) (fun h => hwhole h.of_drop) hrest, List.length_drop,
        Int.add_assoc, ← Int.natCast_add, Nat.add_sub_cancel' hinside]
      exact map_map_append first later _

/-- Resolving ends, and goes part by part.  Every call of the three functions returns, and takes no
more rounds and calls than one for each character and one more; and there is one answer only.  When
a text is put together from two without dividing the mark of an expression, and the first one has a
value, then the second one decides: its value comes after that of the first, without a value of it
there is none, and an error about an expression in it, closed or not, is the error for the same
expression. -/
theorem text_resolved_in_parts (r : Resolver) (strict : Bool) :
    (∀ call : Call, ∃ steps ≤ call.given.length + 1,
      r.Returns strict steps call (r.answer strict call) ∧
        ∀ other found, r.Returns strict other call found → found = r.answer strict call) ∧
    ∀ {front back value : Text}, ¬ front.DivideMark back →
      r.resolveText strict 0 front = .ok (some value) →
        (∀ later, r.resolveText strict 0 back = .ok (some later) →
          r.resolveText strict 0 (front ++ back) = .ok (some (value ++ later))) ∧
        (r.resolveText strict 0 back = .ok none →
          r.resolveText strict 0 (front ++ back) = .ok none) ∧
        ∀ e, r.resolveText strict 0 back = .error e →
          ∃ e', r.resolveText strict 0 (front ++ back) = .error e' ∧
            e'.fragment = e.fragment ∧ e'.message = e.message ∧
              (e' = e ∨ e' = e.displace front.length) := by
  refine ⟨fun call => ?_, fun {front back value} hwhole hfront => ?_⟩
  · obtain ⟨steps, hsteps⟩ := r.exists_returns strict call
    exact ⟨steps, hsteps.steps_le, hsteps, fun other found h => h.eq_answer⟩
  · have hback := displaced_resolveText r strict front.length 0 back
    rw [resolveText_append r strict hwhole hfront]
    refine ⟨fun later hlater => ?_, fun hnone => ?_, fun e herror => ?_⟩
    · rw [hlater] at hback
      rw [hback.eq_of_ok]
      rfl
    · rw [hnone] at hback
      rw [hback.eq_of_ok]
      rfl
    · rw [herror] at hback
      obtain ⟨e', hthere, hmoved⟩ := hback.exists_of_error
      refine ⟨e', by rw [hthere]; rfl, ?_, ?_, hmoved⟩
      · rcases hmoved with rfl | rfl
        · rfl
        · exact e.fragment_displace front.length
      · rcases hmoved with rfl | rfl
        · rfl
        · exact e.message_displace front.length

/-! ### One known and one unknown name -/

/-- A resolver that knows one name. -/
def knowingOne : Resolver := { properties := [(['a'], ['1'])] }

/-- An expression with a value, and a `$` after it. -/
def knownText : Text := ['$', '{', 'a', '}', '$']

/-- An expression without a value, and a character before it. -/
def unknownText : Text := ['-', '$', '{', 'b', '}']

theorem resolveText_knownText (strict : Bool) :
    knowingOne.resolveText strict 0 knownText = .ok (some ['1', '$']) := by
  have hbody : body? knownText = some ['a'] := by decide
  have hname : knowingOne.lookupFirst ['a'] = some ['1'] := by decide
  exact (Returns.replaced rfl (.closed hbody (.defined hname))
    (.plain rfl (.finished _))).eq_answer.symm

theorem resolveText_unknownText (strict : Bool) :
    knowingOne.resolveText strict 0 unknownText =
      unresolved strict (.unresolvedExpression ['$', '{', 'b', '}'] 1) := by
  have hbody : body? ['$', '{', 'b', '}'] = some ['b'] := by decide
  have hname : knowingOne.lookupFirst ['b'] = none := by decide
  have hvalue : knowingOne.Returns strict 1 (.body ['b']) (.ok none) := .undefined hname rfl
  cases strict with
  | true => exact (Returns.plain rfl (.failed rfl (.closed hbody hvalue))).eq_answer.symm
  | false => exact (Returns.plain rfl (.stopped rfl (.closed hbody hvalue))).eq_answer.symm

/-- The `$` before the seam is a part of the value of `${a}$`, whatever comes after it but a
brace. -/
theorem text_resolved_in_parts_of_dollar :
    (¬ knownText.DivideMark knownText ∧
      knowingOne.resolveText true 0 knownText = .ok (some ['1', '$']) ∧
      knowingOne.resolveText true 0 (knownText ++ knownText) = .ok (some ['1', '$', '1', '$'])) ∧
    ¬ knownText.DivideMark unknownText ∧
    (knowingOne.resolveText false 0 knownText = .ok (some ['1', '$']) ∧
      knowingOne.resolveText false 0 unknownText = .ok none ∧
      knowingOne.resolveText false 0 (knownText ++ unknownText) = .ok none) ∧
    knowingOne.resolveText true 0 unknownText =
        .error (.unresolvedExpression ['$', '{', 'b', '}'] 1) ∧
      ∃ e', knowingOne.resolveText true 0 (knownText ++ unknownText) = .error e' ∧
        e'.fragment = ['$', '{', 'b', '}'] ∧
        e'.message = "Cannot resolve expression '$\x7bb\x7d'" ∧
        (e' = .unresolvedExpression ['$', '{', 'b', '}'] 1 ∨
          e' = .unresolvedExpression ['$', '{', 'b', '}'] 6) := by
  have hknown : ¬ knownText.DivideMark knownText := by decide
  have hunknown : ¬ knownText.DivideMark unknownText := by decide
  obtain ⟨-, hstrict⟩ := text_resolved_in_parts knowingOne true
  obtain ⟨-, hlenient⟩ := text_resolved_in_parts knowingOne false
  obtain ⟨hvalue, -, -⟩ := hstrict hknown (resolveText_knownText true)
  obtain ⟨-, hnone, -⟩ := hlenient hunknown (resolveText_knownText false)
  obtain ⟨-, -, herror⟩ := hstrict hunknown (resolveText_knownText true)
  exact ⟨⟨hknown, resolveText_knownText true, hvalue _ (resolveText_knownText true)⟩, hunknown,
    ⟨resolveText_knownText false, resolveText_unknownText false,
      hnone (resolveText_unknownText false)⟩,
    resolveText_unknownText true, herror _ (resolveText_unknownText true)⟩

end Resolver
end
end CommandLine
