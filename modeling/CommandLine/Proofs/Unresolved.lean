/-
# `CommandLine.Proofs.Unresolved` — where an error about an expression points

What cannot be resolved ends a strict run with an error that shows it.  The offset of the error is
where it stands in the line, as the line reads at that moment, unless it stands in the default of
another expression: a default is resolved with nothing but its own text at hand, so there the offset
is counted from the start of the innermost default.

    what cannot be resolved       its place            the offset
    a variable                    the cursor           the place
    the expression at the cursor  the cursor           the place
    an expression in a default    inside that default  how far the place is from its start

`Resolver.DefaultAt` says where in the text of an expression defaults start, at any depth, and
`Resolver.Blames` what an error is about.  Resolving is the only part of a run that ends with such
an error, whatever the graph and whoever listens (`holds_resolving`, which puts a run beside
itself), and it does not move the cursor.
-/
import CommandLine.Proofs.Lockstep
import CommandLine.Proofs.Safety
import Mathlib.Data.List.Infix

namespace CommandLine

open Text

/-! ## What is found missing -/

namespace FormatError

/-- What the error says cannot be resolved, from its `$` on. -/
def fragment : FormatError → Text
  | expressionNotClosed rest _ _ => rest
  | unresolvedExpression expression _ => expression
  | unresolvedVariable name _ => '$' :: name
  | _ => []

/-- The error says that a variable cannot be resolved. -/
def isVariable : FormatError → Bool
  | unresolvedVariable _ _ => true
  | _ => false

/-- What the error is about stands at a place of a text. -/
def ConcernsAt (e : FormatError) (text : Text) (place : Nat) : Prop :=
  e.fragment.head? = some '$' ∧ e.fragment <+: text.drop place

theorem ConcernsAt.inside {e : FormatError} {part text : Text} {start place : Nat}
    (h : e.ConcernsAt part place) (hpart : part <+: text.drop start) :
    e.ConcernsAt text (start + place) := by
  refine ⟨h.1, h.2.trans ?_⟩
  rw [← List.drop_drop]
  exact List.IsPrefix.drop hpart place

end FormatError

/-! ## Defaults -/

theorem opensExpression_eq {text : Text} (h : opensExpression text = true) :
    text.head? = some '$' := by
  obtain ⟨rest, rfl⟩ := List.isPrefixOf_iff_prefix.1 h
  rfl

theorem prefix_of_body? {text body : Text} (h : body? text = some body) : body <+: text.drop 2 := by
  obtain ⟨k, -, rfl⟩ := Option.map_eq_some_iff.1 h
  exact List.take_prefix k _

namespace Resolver

/-- The text starts with an expression that has a default, and as none of its names is defined the
default stands for it. -/
structure Defaults (r : Resolver) (text names default : Text) : Prop where
  opens : opensExpression text = true
  body : ∃ body, body? text = some body ∧ cut ':' body = (names, some default)
  undefined : r.lookupFirst names = none

/-- Where the default starts. -/
def defaultStart (names : Text) : Nat := names.length + 3

/-- The default stands after the names and a colon. -/
theorem Defaults.stands {r : Resolver} {text names default : Text}
    (h : r.Defaults text names default) : default <+: text.drop (defaultStart names) := by
  obtain ⟨body, hbody, hcut⟩ := h.body
  have hsplit : body = names ++ ':' :: default := by
    have hcolon : body = (cut ':' body).1 ++ ':' :: default :=
      cut_of_some (congrArg Prod.snd hcut)
    rwa [hcut] at hcolon
  have hdefault : body.drop (names.length + 1) = default := by
    rw [hsplit, ← List.drop_drop, List.drop_left]
    rfl
  have hdrop := List.IsPrefix.drop (prefix_of_body? hbody) (names.length + 1)
  rw [hdefault, List.drop_drop, show 2 + (names.length + 1) = defaultStart names by
    rw [defaultStart]; omega] at hdrop
  exact hdrop

/-- In the expression that the text starts with, a default starts at a place: its own one, or that
of an expression which stands in its default, at any depth. -/
inductive DefaultAt (r : Resolver) : Text → Nat → Prop
  | own {text names default : Text} (h : r.Defaults text names default) :
    DefaultAt r text (defaultStart names)
  | inner {text names default : Text} {place start : Nat} (h : r.Defaults text names default)
    (deeper : DefaultAt r (default.drop place) start) :
    DefaultAt r text (defaultStart names + (place + start))

/-- A default never starts where its expression does. -/
theorem DefaultAt.three_le {r : Resolver} {text : Text} {start : Nat}
    (h : r.DefaultAt text start) : 3 ≤ start := by
  cases h with
  | own => exact Nat.le_add_left 3 _
  | inner => exact Nat.le_add_right_of_le (Nat.le_add_left 3 _)

/-- What an error says that came up when the expression was resolved which the text starts with, at
an index: it is about that expression, or about one that stands in a default, and then its offset is
counted from the start of that default. -/
inductive Blames (r : Resolver) (text : Text) (index : Int) (e : FormatError) : Prop
  | itself (hkind : e.isVariable = false) (hplace : e.ConcernsAt text 0)
    (hoffset : e.offset = index)
  | within {start place : Nat} (hkind : e.isVariable = false) (hdefault : r.DefaultAt text start)
    (hplace : e.ConcernsAt text (start + place)) (hoffset : e.offset = place)

/-- What is wrong in a default is wrong in the expression that has it. -/
theorem Blames.of_default {r : Resolver} {text names default : Text} {place : Nat}
    {index : Int} {e : FormatError} (hdefault : r.Defaults text names default)
    (h : r.Blames (default.drop place) place e) : r.Blames text index e := by
  have deeper {n : Nat} (hn : e.ConcernsAt (default.drop place) n) :
      e.ConcernsAt text (defaultStart names + (place + n)) :=
    (hn.inside (List.prefix_refl _)).inside hdefault.stands
  cases h with
  | itself hkind hplace hoffset => exact .within hkind (.own hdefault) (deeper hplace) hoffset
  | within hkind hinner hplace hoffset =>
    have hplace := deeper hplace
    rw [← Nat.add_assoc place, ← Nat.add_assoc (defaultStart names)] at hplace
    exact .within hkind (.inner hdefault hinner) hplace hoffset

/-! ## Resolving expressions -/

section

variable {r : Resolver} {strict : Bool} {e : FormatError}

theorem eq_of_unresolved {α : Type} {found : FormatError}
    (h : (unresolved strict found : Resolved α) = .error e) : e = found := by
  unfold unresolved at h
  split at h <;> cases h
  rfl

theorem error_of_map {α β : Type} {answer : Resolved α} {f : Option α → Option β}
    (h : answer.map f = .error e) : answer = .error e := by
  cases answer with
  | error found => exact congrArg Except.error (Except.error.inj h)
  | ok found => cases h

/-- An expression with a closing brace is at fault itself, or its default is. -/
theorem blames_of_valueRequired {text body : Text} {index : Int}
    (hopens : opensExpression text = true) (hbody : body? text = some body)
    (hinner : ∀ {e}, r.valueOfBody strict body = .error e → ∃ names default place,
      cut ':' body = (names, some default) ∧ r.lookupFirst names = none ∧
        r.Blames (default.drop place) place e)
    (h : valueRequired strict (text.take (expressionLength body)) index
      (r.valueOfBody strict body) = .error e) : r.Blames text index e := by
  cases hvalue : r.valueOfBody strict body with
  | error found =>
    rw [hvalue] at h
    cases h
    obtain ⟨names, default, place, hcut, hundefined, hblames⟩ := hinner hvalue
    exact .of_default ⟨hopens, ⟨body, hbody, hcut⟩, hundefined⟩ hblames
  | ok found =>
    rw [hvalue] at h
    cases found with
    | some value => cases h
    | none =>
      obtain rfl := eq_of_unresolved h
      refine .itself rfl ⟨?_, List.take_prefix _ _⟩ rfl
      show (text.take (expressionLength body)).head? = some '$'
      rw [← opensExpression_eq hopens]
      exact (List.head?_take ..).trans (if_neg (Nat.succ_ne_zero _))

end

mutual

/-- A text is at fault in one of the expressions that stand in it. -/
theorem blames_of_resolveText (r : Resolver) (strict : Bool) (index : Int) (text : Text)
    {e : FormatError} (h : r.resolveText strict index text = .error e) :
    ∃ place : Nat, r.Blames (text.drop place) (index + place) e := by
  match text with
  | [] =>
    rw [resolveText_nil] at h
    cases h
  | c :: rest =>
    cases hopens : opensExpression (c :: rest) with
    | false =>
      rw [resolveText_of_plain r strict index hopens] at h
      obtain ⟨place, hblames⟩ := blames_of_resolveText r strict (index + 1) rest (error_of_map h)
      refine ⟨place + 1, ?_⟩
      rwa [Int.add_assoc, Int.add_comm 1] at hblames
    | true =>
      cases hbody : body? (c :: rest) with
      | none =>
        rw [resolveText_of_open r strict index hopens hbody] at h
        obtain rfl := eq_of_unresolved h
        exact ⟨0, .itself rfl ⟨opensExpression_eq hopens, List.prefix_refl _⟩
          (Int.add_zero index).symm⟩
      | some body =>
        have hlength := body?_length hbody
        rw [resolveText_of_expression r strict index hopens hbody] at h
        split at h
        · next hvalue =>
          cases h
          refine ⟨0, ?_⟩
          rw [Int.natCast_zero, Int.add_zero]
          exact blames_of_valueRequired hopens hbody
            (fun h => blames_of_valueOfBody r strict body h) hvalue
        · cases h
        · obtain ⟨place, hblames⟩ := blames_of_resolveText r strict _ _ (error_of_map h)
          refine ⟨expressionLength body + place, ?_⟩
          rwa [List.drop_drop, Int.add_assoc, ← Int.natCast_add] at hblames
termination_by (text.length, 1)
decreasing_by
  all_goals
    simp only [Prod.lex_def, expressionLength, List.length_cons, List.length_drop] at *
    omega

/-- What is between the braces of an expression is at fault in its default. -/
theorem blames_of_valueOfBody (r : Resolver) (strict : Bool) (body : Text) {e : FormatError}
    (h : r.valueOfBody strict body = .error e) :
    ∃ names default place, cut ':' body = (names, some default) ∧ r.lookupFirst names = none ∧
      r.Blames (default.drop place) place e := by
  rw [valueOfBody] at h
  cases hnames : r.lookupFirst (cut ':' body).1 with
  | some value =>
    rw [hnames] at h
    cases h
  | none =>
    rw [hnames] at h
    dsimp only at h
    split at h
    · next default hcut =>
      obtain ⟨place, hblames⟩ := blames_of_resolveText r strict 0 default h
      rw [Int.zero_add] at hblames
      exact ⟨_, default, place, Prod.ext rfl hcut, hnames, hblames⟩
    · cases h
termination_by (body.length, 0)
decreasing_by
  have := cut_length ‹_›
  simp only [Prod.lex_def]
  omega

end

/-- An expression at an index is at fault itself, or what stands in a default is. -/
theorem blames_of_resolveExpression {r : Resolver} {strict : Bool} {index : Int} {text : Text}
    {e : FormatError} (hopens : opensExpression text = true)
    (h : r.resolveExpression strict index text = .error e) : r.Blames text index e := by
  unfold resolveExpression at h
  cases hbody : body? text with
  | none =>
    rw [hbody] at h
    obtain rfl := eq_of_unresolved h
    exact .itself rfl ⟨opensExpression_eq hopens, List.prefix_refl _⟩ rfl
  | some body =>
    rw [hbody] at h
    exact blames_of_valueRequired hopens hbody (fun h => blames_of_valueOfBody r strict body h)
      (error_of_map h)

/-- A variable at an index is at fault itself. -/
theorem concernsAt_of_resolveVariable {r : Resolver} {strict : Bool} {index : Int} {rest : Text}
    {e : FormatError} (h : r.resolveVariable strict index ('$' :: rest) = .error e) :
    e.ConcernsAt ('$' :: rest) 0 ∧ e.offset = index := by
  unfold resolveVariable at h
  split at h
  · next table name htable hname =>
    unfold variableIn at h
    split at h
    · cases h
    · obtain rfl := eq_of_unresolved h
      refine ⟨⟨rfl, ?_⟩, rfl⟩
      unfold variableName? at hname
      split at hname
      · cases hname
      · next c tail hrest =>
        split at hname
        · cases hname
          rw [List.drop_succ_cons, List.drop_zero] at hrest
          rw [hrest]
          exact List.cons_prefix_cons.2 ⟨rfl, List.takeWhile_prefix _⟩
        · cases hname
  · cases h

end Resolver

/-! ## At the cursor -/

namespace Context

variable {σ : Type} {c : Context σ} {e : FormatError}

/-- What an error says that came up when something was resolved at the cursor: it is about what
stands there, or about an expression in one of its defaults, and then its offset is counted from the
start of that default. -/
inductive Blames (c : Context σ) (e : FormatError) : Prop
  | itself (hplace : e.ConcernsAt c.input c.location) (hoffset : e.offset = c.location)
  | within {start place : Nat} (hkind : e.isVariable = false)
    (hdefault : c.settings.resolver.DefaultAt (c.input.drop c.location) start)
    (hplace : e.ConcernsAt c.input (c.location + start + place)) (hoffset : e.offset = place)

theorem blames_of_resolveHere (h : c.resolveHere = .error (.format e)) : c.Blames e := by
  have lift {n : Nat} (hn : e.ConcernsAt (c.input.drop c.location) n) :
      e.ConcernsAt c.input (c.location + n) := hn.inside (List.prefix_refl _)
  unfold resolveHere at h
  split at h
  · next rest htext =>
    split at h
    · obtain ⟨-, hroom⟩ | ⟨found, hfound, h⟩ := Resolver.resolveWithin_error h
      · cases hroom
      · cases hfound
        rw [← htext] at h
        cases Resolver.blames_of_resolveExpression (htext ▸ rfl) h with
        | itself _ hplace hoffset => exact .itself (lift hplace) hoffset
        | within hkind hdefault hplace hoffset =>
          have hplace := lift hplace
          rw [← Nat.add_assoc] at hplace
          exact .within hkind hdefault hplace hoffset
    · cases h
  · next next rest htext =>
    obtain ⟨found, hfound, h⟩ := Resolver.exists_error_of_mapError h
    cases hfound
    obtain ⟨hplace, hoffset⟩ := Resolver.concernsAt_of_resolveVariable h
    rw [← htext] at hplace
    exact .itself (lift hplace) hoffset
  · cases h

/-- The rounds of resolving stop with the error of the place that they have come to. -/
theorem blames_of_resolveRounds {rounds : Nat}
    (h : (c.resolveRounds rounds).2 = some (.format e)) : (c.resolveRounds rounds).1.Blames e := by
  induction rounds generalizing c with
  | zero => cases h
  | succ rounds ih =>
    simp only [resolveRounds] at h ⊢
    cases hc : c.resolveHere with
    | error found =>
      rw [hc] at h
      cases h
      exact blames_of_resolveHere hc
    | ok found =>
      rw [hc] at h
      cases found with
      | none => cases h
      | some found =>
        by_cases hempty : found.2.isEmpty
        · simp only [if_pos hempty] at h ⊢
          exact ih h
        · simp only [if_neg hempty] at h
          cases h

/-- Where an error about something unresolved leads: it is about what stands in the line where its
offset says, and that is the cursor; or it is about an expression in the default of another one at
the cursor, and then the offset is how far that is from the start of the innermost default around
it, which is at least three characters after the cursor. -/
def Places (c : Context σ) (e : FormatError) : Prop :=
  ∃ place : Nat, e.ConcernsAt c.input place ∧
    (e.offset = place ∧ place = c.location ∨
      e.isVariable = false ∧
        ∃ start, c.settings.resolver.DefaultAt (c.input.drop c.location) start ∧
          3 ≤ start ∧ e.offset + (c.location + start) = place)

theorem Blames.places (h : c.Blames e) : c.Places e := by
  cases h with
  | itself hplace hoffset => exact ⟨_, hplace, .inl ⟨hoffset, rfl⟩⟩
  | within hkind hdefault hplace hoffset =>
    refine ⟨_, hplace, .inr ⟨hkind, _, hdefault, hdefault.three_le, ?_⟩⟩
    rw [hoffset]
    omega

end Context

/-! ## Runs -/

/-- The fault is that an expression or a variable cannot be resolved. -/
def Fault.isUnresolved : Fault → Bool
  | .format e => e.isUnresolved
  | _ => false

/-- The verdict is that an expression or a variable cannot be resolved. -/
def Verdict.isUnresolved : Verdict → Bool
  | accept => false
  | complain e => e.isUnresolved
  | refuse fault => fault.isUnresolved

/-- The listener leaves it to the machine to find something unresolved. -/
def Listener.LeavesResolving {σ τ : Type} (L : Listener σ τ) : Prop :=
  ∀ (signal : Signal σ) (c : Context σ) (gathered : τ),
    (L.hear signal c gathered).verdict.isUnresolved = false

/-- A fair handler finds fault with operations only. -/
theorem Reader.leavesResolving_listener {η : Type} {handler : Handler η} (fair : handler.IsFair) :
    (listener handler).LeavesResolving := by
  intro signal c gathered
  rcases verdict_listener fair signal c gathered with h | ⟨_, h⟩ <;> rw [h] <;> rfl

section

variable {σ τ α : Type} {G : Graph σ} {L : Listener σ τ} {s t : Session σ τ}

namespace Machine

/-- If the run has ended because something cannot be resolved, the error is about what stands at the
cursor. -/
def Unresolved (fault : Fault) (s : Session σ τ) : Prop :=
  ∀ e, fault = .format e → e.isUnresolved = true → s.context.Blames e

theorem Unresolved.of_not {fault : Fault} (h : fault.isUnresolved = false) :
    Unresolved fault s := by
  rintro e rfl he
  exact absurd (he.symm.trans h) nofun

end Machine

open Machine

/-- A run beside itself, which finds something unresolved at its cursor only. -/
def Bond.resolving : Bond σ τ τ where
  joins s t := s = t
  fails fault s _ _ := Unresolved fault s

theorem paired_resolving_iff {p : Machine σ τ α} :
    Paired .resolving p s p s ↔ Ends Unresolved (fun _ _ => True) p s := by
  unfold Paired Ends
  cases p s with
  | ok a t => exact ⟨fun _ => trivial, fun _ => ⟨rfl, rfl⟩⟩
  | error fault t => exact ⟨fun h => h.resolve_left id, .inr⟩

theorem ends_complain_resolving {e : FormatError} (h : e.isUnresolved = false) :
    Ends Unresolved (fun _ _ => True) (complain e) s :=
  .complain (fun _ => .of_not h) fun _ => trivial

theorem ends_tell_resolving (hL : L.LeavesResolving) (signal : Signal σ) :
    Ends Unresolved (fun _ _ => True) (tell L signal) s := by
  have hverdict := hL signal s.context s.gathered
  refine .tell (fun _ => trivial) (fun {e} hv => ?_) fun {fault} hv => ?_
  · rw [hv] at hverdict
    exact ends_complain_resolving hverdict
  · rw [hv] at hverdict
    exact .of_not hverdict

/-- Only what stands at the cursor is found unresolved. -/
theorem ends_prepare_resolving : Ends Unresolved (fun _ _ => True) prepare s := by
  refine .read ?_
  split
  · have hresolve := resolve_apply s
    cases he : s.context.resolve.2 with
    | some fault =>
      rw [he] at hresolve
      refine .of_error hresolve fun e h _ => ?_
      subst h
      exact Context.blames_of_resolveRounds he
    | none =>
      rw [he] at hresolve
      exact .of_ok hresolve trivial
  · exact .pure trivial

theorem holds_resolving (G : Graph σ) (hL : L.LeavesResolving) :
    Bond.resolving.Holds G L L fun _ => True where
  active := by
    rintro s _ rfl
    rfl
  character? := by
    rintro s _ rfl
    rfl
  escapes := by
    rintro s _ rfl
    rfl
  looks := by
    rintro s _ following preceding rfl
    rfl
  limits := by
    rintro s _ rfl
    exact .inl rfl
  throws := by
    rintro s _ fault hformat rfl e rfl
    exact absurd rfl (hformat e)
  places := by
    rintro s _ rfl
    rfl
  tells := by
    rintro s _ signal rfl
    exact paired_resolving_iff.2 (ends_tell_resolving hL signal)
  opens := by
    rintro s _ x rfl
    exact paired_resolving_iff.2 (.opening (fun _ => trivial) fun _ => .of_not rfl)
  closes := by
    rintro s _ rfl
    rw [paired_resolving_iff, Ends, closing_apply]
    cases s.context.stack.pop with
    | ok popped => exact trivial
    | error d => exact .of_not rfl
  complains := by
    rintro s _ delimiter rfl
    rw [paired_resolving_iff, notFinished, frame_bind_eq]
    refine .read ?_
    cases s.context.frame? with
    | none => exact .of_not rfl
    | some f => exact ends_complain_resolving rfl
  configures := by
    rintro s _ escapes expressions - rfl
    rw [paired_resolving_iff, configure, frame_bind_eq]
    refine .read ?_
    cases s.context.frame? with
    | none => exact .of_not rfl
    | some f => exact trivial
  prepares := by
    rintro s _ rfl
    exact paired_resolving_iff.2 ends_prepare_resolving
  advances := by
    rintro s _ rfl
    rw [paired_resolving_iff, Ends, advance_apply]
    cases s.context.atEnd with
    | true => exact .of_not rfl
    | false => exact trivial

/-- A run that ends because something is unresolved ends where that stands. -/
theorem places_of_readFrom (hL : L.LeavesResolving) {initial : σ} {limit : Nat} {e : FormatError}
    (hrun : readFrom G L initial limit s = .error (.format e) t) (he : e.isUnresolved = true) :
    t.context.settings = s.context.settings ∧ t.context.Places e := by
  have hmoves := Follows.readFrom (G := G) (L := L) initial limit s
  rw [after_of_error hrun] at hmoves
  have hpaired : Paired .resolving (readFrom G L initial limit) s (readFrom G L initial limit) s :=
    (holds_resolving G hL).readFrom (.all G) initial (.inl rfl) rfl
  have hblames := (paired_resolving_iff.1 hpaired).error hrun e rfl he
  exact ⟨hmoves.settings_eq, hblames.places⟩

end

/-! ## Lines -/

namespace Graph

open Machine

variable {σ τ : Type} {G : Graph σ} {L : Listener σ τ} {initial : σ} {settings : Settings}
  {strict : Bool} {line : Option Text} {gathered : τ} {e : FormatError}

/-- A line that is found unresolved ends its run with that error. -/
theorem exists_of_unresolved
    (hread : (G.read settings strict L initial line gathered).2 = .error (.format e))
    (he : e.isUnresolved = true) :
    ∃ t, readFrom G L initial (positionLimit settings (line.getD []))
      (.start settings strict (line.getD []) gathered) = .error (.format e) t := by
  unfold read readText at hread
  dsimp only at hread
  split at hread
  · cases hread
  · split at hread
    · cases hread
    · next fault t hrun =>
      cases fault with
      | format found =>
        cases hread
        exact ⟨t, hrun⟩
      | defect cause =>
        cases hread
        cases he
      | _ => cases hread

/-- The offset of an error about something unresolved.  Whenever a line cannot be read because of an
expression or a variable, in any graph, from any state on and whoever listens, it stands in the
line, as it reads at that moment, where the offset leads, and that is the cursor; or it is an
expression in the default of another one at the cursor, and then the offset is how far it is from
the start of the innermost default around it. -/
theorem unresolved_place (hL : L.LeavesResolving)
    (hread : (G.read settings strict L initial line gathered).2 = .error (.format e))
    (he : e.isUnresolved = true) :
    ∃ t, readFrom G L initial (positionLimit settings (line.getD []))
        (.start settings strict (line.getD []) gathered) = .error (.format e) t ∧
      t.context.settings = settings ∧ t.context.Places e := by
  obtain ⟨t, hrun⟩ := exists_of_unresolved hread he
  exact ⟨t, hrun, places_of_readFrom hL hrun he⟩

end Graph

/-! ### A default without a value -/

section

open Machine

/-- A line with an expression in the default of another one. -/
def nestedDefault : Text := ['$', '{', 'a', ':', '$', '{', 'b', '}', '}']

/-- The error about the inner expression. -/
def nestedError : FormatError := .unresolvedExpression ['$', '{', 'b', '}'] 0

open Resolver in
/-- The default is all that is left of the outer expression, and the inner one has no value. -/
theorem resolveHere_nestedDefault :
    (Context.start nothingDefined true nestedDefault : Context StateName).resolveHere =
      .error (.format nestedError) := by
  have houter : body? nestedDefault = some ['a', ':', '$', '{', 'b', '}'] := by decide
  have hinner : body? ['$', '{', 'b', '}'] = some ['b'] := by decide
  have hvalue : nothingDefined.resolver.valueOfBody true ['b'] = .ok none :=
    valueOfBody_of_undefined rfl rfl
  have hdefault : nothingDefined.resolver.valueOfBody true ['a', ':', '$', '{', 'b', '}'] =
      .error nestedError := by
    rw [valueOfBody_of_default rfl rfl, resolveText_of_expression _ _ _ rfl hinner, hvalue]
    rfl
  show nothingDefined.resolver.resolveWithin true 0 nestedDefault = _
  rw [resolveWithin_of_length_le (by decide)]
  unfold resolveExpression
  rw [houter]
  dsimp only
  rw [hdefault]
  rfl

/-- The run over the line, from its first to its last moment. -/
abbrev nestedRun : EStateM.Result Fault (Session StateName (Reader × Command)) Unit :=
  readFrom grammar (Reader.listener Command.handler) .argumentList
    (positionLimit nothingDefined nestedDefault)
    (.start nothingDefined true nestedDefault ({}, .relativeTo []))

theorem exists_of_nestedRun :
    ∃ t, nestedRun = .error (.format nestedError) t ∧ t.context.input = nestedDefault :=
  exists_run_of_resolveHere Command.handler (.relativeTo []) (by decide) resolveHere_nestedDefault

/-- The default of the first expression starts four characters after the cursor, and the offset of
the error is counted from there. -/
theorem Graph.unresolved_place_of_default :
    (Reader.listener Command.handler).LeavesResolving ∧
      (grammar.read nothingDefined true (Reader.listener Command.handler) .argumentList
        (some nestedDefault) ({}, .relativeTo [])).2 = .error (.format nestedError) ∧
      nestedError.isUnresolved = true ∧
      ∃ t, nestedRun = .error (.format nestedError) t ∧
        t.context.settings = nothingDefined ∧ t.context.Places nestedError := by
  have hleaves := Reader.leavesResolving_listener Command.isFair_handler
  obtain ⟨t, hrun, -⟩ := exists_of_nestedRun
  have hread : (grammar.read nothingDefined true (Reader.listener Command.handler) .argumentList
      (some nestedDefault) ({}, .relativeTo [])).2 = .error (.format nestedError) := by
    rw [Graph.read_of_not_isBlankText (by decide), Graph.readText, show readFrom _ _ _ _ _ = _ from hrun]
    rfl
  exact ⟨hleaves, hread, rfl, Graph.unresolved_place hleaves hread rfl⟩

/-- The error points at the start of the line, where the outer expression stands. -/
theorem Graph.unresolved_place_ne_offset :
    ∃ t, nestedRun = .error (.format nestedError) t ∧
      nestedError.isUnresolved = true ∧
      ¬ ∃ place : Nat, nestedError.offset = place ∧
        nestedError.ConcernsAt t.context.input place := by
  obtain ⟨t, hrun, hinput⟩ := exists_of_nestedRun
  refine ⟨t, hrun, rfl, ?_⟩
  rintro ⟨place, hplace, -, hprefix⟩
  obtain rfl : 0 = place := Int.ofNat_inj.1 hplace
  rw [hinput] at hprefix
  exact absurd hprefix (by decide)

end
end CommandLine
