/-
# `CommandLine.Proofs.Leftovers` — what a strict run leaves unresolved

A strict run resolves what stands under its cursor or ends with an error, so one expects that no
`$` of the line as it reads at the end is followed by a brace or a name, as far as expressions are
enabled there.  This is not so, because a `$` is only looked at when the cursor comes to it:

    `$x`, `x` ↦ `$y`    the replacement is not looked at again at its start    (`$y` is left)
    `$$x`, `x` ↦ `b`    the text after the `$` is replaced when the `$` has been handled (`$b`)

Both are meant.  Resolving goes on in place only after an empty replacement, which brings the text
after it under the cursor; and the cursor never goes back.  The main result says that there is
nothing else: where a reference is left, either the `$` starts a replacement that was put in at that
place, or something was replaced right after it (`leftovers_replaced`).

    before a character is handled    nothing is left, or a replacement starts here
    while it is handled              the line stays as it is                         (`after_handle`)
    afterwards                       the next character stays, or a substitution is recorded there
                                                                                     (`Moves.holds`)
-/
import CommandLine.Proofs.Faithful

namespace CommandLine

open Text

/-! ## References -/

/-- The character makes a `$` before it the start of an expression or of a variable. -/
def followsDollar (c : Char) : Bool := c == '{' || startsName c

/-- An expression or a variable starts at the place. -/
def Text.RefersAt (text : Text) (index : Nat) : Prop :=
  text[index]? = some '$' ∧ text[index + 1]?.any followsDollar = true

instance (text : Text) (index : Nat) : Decidable (text.RefersAt index) :=
  inferInstanceAs (Decidable (_ ∧ _))

theorem Text.exists_drop_of_refersAt {text : Text} {index : Nat} (h : text.RefersAt index) :
    ∃ c rest, text.drop index = '$' :: c :: rest ∧ followsDollar c = true := by
  obtain ⟨hdollar, hnext⟩ := h
  cases hc : text[index + 1]? with
  | none =>
    rw [hc] at hnext
    cases hnext
  | some c =>
    rw [hc] at hnext
    obtain ⟨hlt, rfl⟩ := List.getElem?_eq_some_iff.1 hc
    obtain ⟨hlt', hd⟩ := List.getElem?_eq_some_iff.1 hdollar
    refine ⟨text[index + 1], text.drop (index + 1 + 1), ?_, hnext⟩
    rw [List.drop_eq_getElem_cons hlt', hd, List.drop_eq_getElem_cons hlt]

/-- A place has no text after it at the end of the text. -/
theorem Text.not_refersAt_of_le {text : Text} {index : Nat} (h : text.length ≤ index) :
    ¬ text.RefersAt index := by
  intro hrefers
  rw [Text.RefersAt, List.getElem?_eq_none h] at hrefers
  exact absurd hrefers.1 nofun

/-! ## Strict answers -/

namespace Resolver

variable {r : Resolver} {text rest : Text} {index : Int} {c : Char}

theorem valueRequired_ne_none (expression : Text) (index : Int) (answer : Resolved Text) :
    valueRequired true expression index answer ≠ .ok none := by
  unfold valueRequired
  split
  · nofun
  · next hanswer => exact fun h => hanswer h

/-- A strict answer about an expression is a value or an error. -/
theorem resolveExpression_ne_none : r.resolveExpression true index text ≠ .ok none := by
  unfold resolveExpression
  split
  · nofun
  · next body _ =>
    have hvalue := valueRequired_ne_none (text.take (expressionLength body)) index
      (r.valueOfBody true body)
    cases hanswer : valueRequired true (text.take (expressionLength body)) index
        (r.valueOfBody true body) with
    | error e =>
      dsimp only
      rw [hanswer]
      nofun
    | ok value =>
      cases value with
      | none => exact absurd hanswer hvalue
      | some value =>
        dsimp only
        rw [hanswer]
        nofun

/-- A strict answer about a name, once there is a table, is a value or an error. -/
theorem resolveVariable_ne_none (hvariables : r.variableValues.isSome = true)
    (hc : startsName c = true) :
    r.resolveVariable true index ('$' :: c :: rest) ≠ .ok none := by
  obtain ⟨table, htable⟩ := Option.isSome_iff_exists.1 hvariables
  have hname : variableName? ('$' :: c :: rest) = some ((c :: rest).takeWhile continuesName) := by
    rw [variableName?, List.drop_one, List.tail_cons]
    exact if_pos hc
  unfold resolveVariable
  rw [htable, hname]
  show variableIn table true _ index ≠ .ok none
  unfold variableIn
  cases table.lookup ((c :: rest).takeWhile continuesName) <;> exact fun h => nomatch h

end Resolver

/-- Every expression and every variable is resolved or refused. -/
structure Settings.ResolveAll (settings : Settings) : Prop where
  expressions : settings.resolvesExpressions = true
  names : settings.resolver.variableValues.isSome = true

namespace Context

variable {σ : Type} {c d : Context σ}

/-- Where a strict run finds nothing to resolve there is no reference. -/
theorem not_refersAt_of_resolveHere (hall : c.settings.ResolveAll) (hstrict : c.strict = true)
    (h : c.resolveHere = .ok none) : ¬ c.input.RefersAt c.location := by
  intro hrefers
  obtain ⟨next, rest, hdrop, hnext⟩ := Text.exists_drop_of_refersAt hrefers
  unfold resolveHere at h
  rw [hdrop, hstrict] at h
  split at h
  · rw [if_pos hall.expressions] at h
    exact Resolver.resolveExpression_ne_none (Resolver.resolveExpression_of_resolveWithin h)
  · next hbrace heq =>
    cases heq
    have hname : startsName next = true := by
      rw [followsDollar, Bool.or_eq_true, beq_iff_eq] at hnext
      exact hnext.resolve_left hbrace
    exact Resolver.resolveVariable_ne_none hall.names hname (Resolver.ok_of_mapError h)
  · next hother => exact hother _ _ rfl

/-- A replacement that is recorded where the cursor stands starts with what stands there. -/
def Replaced (c : Context σ) : Prop :=
  ∃ s ∈ c.line.substitutions, s.substitutedIndex = c.location ∧
    s.replacement.head? = c.character? ∧ s.replacement ≠ []

/-- What was put in under the cursor is replaced. -/
theorem replaced_substitute {fragment replacement : Text} (hinside : c.location ≤ c.input.length)
    (hne : replacement ≠ []) :
    Replaced { c with line := c.line.substitute fragment replacement c.location } := by
  refine ⟨_, List.mem_append_right _ List.mem_cons_self, rfl, ?_, hne⟩
  show replacement.head? = (c.input.replaceAt c.location fragment.length replacement)[c.location]?
  have htake : (c.input.take c.location).length = c.location := by
    rw [List.length_take]
    omega
  obtain ⟨first, rest, rfl⟩ := List.exists_cons_of_ne_nil hne
  rw [Text.replaceAt, List.append_assoc, List.getElem?_append_right (Nat.le_of_eq htake), htake,
    Nat.sub_self]
  rfl

/-- After enough rounds of resolving nothing is left under the cursor, or what stands there was put
in.  Each round but the last one takes text away. -/
theorem settles_of_resolveRounds {rounds : Nat} (hall : c.settings.ResolveAll)
    (hstrict : c.strict = true) (hrounds : c.input.length ≤ c.location + rounds)
    (h : resolveRounds rounds c = (d, none)) :
    ¬ d.input.RefersAt d.location ∨ d.Replaced := by
  induction rounds generalizing c with
  | zero =>
    cases h
    exact .inl (Text.not_refersAt_of_le hrounds)
  | succ rounds ih =>
    rw [resolveRounds] at h
    split at h
    · cases h
    · next hnone =>
      cases h
      exact .inl (not_refersAt_of_resolveHere hall hstrict hnone)
    · next fragment replacement hfound =>
      obtain ⟨⟨hfront, hne⟩, -⟩ := prefix_of_resolveHere hfound
      have hlength := hfront.length_le
      have hpos := List.length_pos_iff.2 hne
      rw [List.length_drop] at hlength
      dsimp only at h
      split at h
      · next hempty =>
        obtain rfl := List.isEmpty_iff.1 hempty
        refine ih (c := { c with line := c.line.substitute fragment [] c.location }) hall hstrict
          ?_ h
        show (c.input.replaceAt c.location fragment.length []).length ≤ c.location + rounds
        rw [Text.replaceAt]
        simp only [List.append_nil, List.length_append, List.length_take, List.length_drop]
        omega
      · next hempty =>
        cases h
        exact .inr (replaced_substitute (by omega) (by simpa using hempty))

end Context

/-! ## The text at and after the cursor -/

section

variable {σ τ : Type} {G : Graph σ} {L : Listener σ τ} {s t u : Session σ τ} {index : Nat}

/-- A move leaves the line alone or replaces what has been resolved under the cursor. -/
theorem Move.line_cases (h : Move G L s t) :
    t.context.line = s.context.line ∨ ∃ fragment replacement,
      s.context.resolveHere = .ok (some (fragment, replacement)) ∧
        t.context.line = s.context.line.substitute fragment replacement s.context.location := by
  cases h with
  | opened name room => exact .inl (by rw [Context.markValue_eq])
  | closed popped => exact .inl (by rw [Context.unlockValue_eq])
  | @substituted fragment replacement found => exact .inr ⟨fragment, replacement, found, rfl⟩
  | _ => exact .inl rfl

/-- The character at a place stays, or a substitution is recorded there. -/
def Session.Holds (s t : Session σ τ) (index : Nat) : Prop :=
  t.context.input[index]? = s.context.input[index]? ∨
    ∃ r ∈ t.context.line.substitutions, r.substitutedIndex = index

theorem Move.keeps_record (h : Move G L s t) :
    s.context.line.substitutions <+: t.context.line.substitutions := by
  rcases h.line_cases with hline | ⟨fragment, replacement, -, hline⟩
  · exact ⟨[], by rw [hline, List.append_nil]⟩
  · rw [hline]
    exact List.prefix_append _ _

theorem Moves.keeps_record (h : Moves G L s t) :
    s.context.line.substitutions <+: t.context.line.substitutions :=
  h.induct (P := fun u => s.context.line.substitutions <+: u.context.line.substitutions)
    (fun m hu => hu.trans m.keeps_record) (List.prefix_refl _)

/-- A move holds what stands at a place that the cursor has reached. -/
theorem Move.holds (h : Move G L s t) (hindex : index ≤ s.context.location)
    (inside : s.context.location ≤ s.context.input.length) : s.Holds t index := by
  rcases h.line_cases with hline | ⟨fragment, replacement, -, hline⟩
  · refine .inl ?_
    rw [show t.context.input = s.context.input from congrArg Line.substituted hline]
  · rcases Nat.eq_or_lt_of_le hindex with rfl | hlt
    · refine .inr ?_
      rw [hline]
      exact ⟨_, List.mem_append_right _ List.mem_cons_self, rfl⟩
    · have htaken := congrArg (fun taken => taken[index]?) (h.later inside).settled
      rw [List.getElem?_take_of_lt hlt, List.getElem?_take_of_lt hlt] at htaken
      exact .inl htaken

/-- Moves hold what stands at a place that the cursor has reached. -/
theorem Moves.holds (h : Moves G L s t) (hindex : index ≤ s.context.location)
    (inside : s.context.location ≤ s.context.input.length) : s.Holds t index := by
  refine (h.induct (P := fun u => Later s u ∧ s.Holds u index) (fun m hu => ?_)
    ⟨.refl inside, .inl rfl⟩).2
  obtain ⟨hlater, hholds⟩ := hu
  refine ⟨hlater.trans (m.later hlater.inside), ?_⟩
  rcases hholds with hsame | ⟨r, hr, hrecord⟩
  · rcases m.holds (Nat.le_trans hindex hlater.forward) hlater.inside with hsame' | hrecord
    · exact .inl (hsame'.trans hsame)
    · exact .inr hrecord
  · exact .inr ⟨r, m.keeps_record.subset hr, hrecord⟩

end

namespace Machine

section

variable {σ τ : Type} {G : Graph σ} {L : Listener σ τ} {s t u : Session σ τ}

/-- Before a character is handled nothing is left under the cursor, or what stands there was put
in. -/
theorem prepare_settles (hall : s.context.settings.ResolveAll) (hstrict : s.context.strict = true)
    (h : prepare s = .ok () t) (hon : t.context.expressionsEnabled = true) :
    ¬ t.context.input.RefersAt t.context.location ∨ t.context.Replaced := by
  have hson : s.context.expressionsEnabled = true := by
    rw [eq_of_prepare h] at hon
    exact hon
  rw [prepare, context_bind_apply, if_pos hson, resolve_apply] at h
  cases herror : s.context.resolve.2 with
  | some e =>
    rw [herror] at h
    cases h
  | none =>
    rw [herror] at h
    cases h
    have hrounds : Context.resolveRounds s.context.input.length s.context =
        (s.context.resolve.1, none) := by
      rw [← herror]
      rfl
    exact Context.settles_of_resolveRounds hall hstrict (Nat.le_add_left _ _) hrounds

/-- A character that a walk handles has been prepared for, and is handled on the way. -/
theorem exists_of_mem_handled {limit : Nat} (hwalk : walk G L limit s = .ok () u)
    (ht : t ∈ handled G L limit s) :
    ∃ s' t' rest, Moves G L s s' ∧ prepare s' = .ok () t ∧ t.context.atEnd = false ∧
      handle G L t = .ok () t' ∧ walk G L rest t' = .ok () u := by
  induction limit generalizing s with
  | zero => cases ht
  | succ limit ih =>
    rcases walk_cases hwalk with ⟨-, -, hnone⟩ | ⟨rest, v, v', hlimit, hround⟩
    · rw [hnone] at ht
      cases ht
    · obtain rfl : limit = rest := Nat.succ.inj hlimit
      obtain ⟨hprepare, hinside, hhandle, hrest, hhandled⟩ := hround
      rw [hhandled] at ht
      rcases List.mem_cons.1 ht with rfl | ht
      · exact ⟨s, v', limit, .refl, hprepare, hinside, hhandle, hrest⟩
      · obtain ⟨s', t', rest', hmoves, hlater⟩ := ih hrest ht
        have hfirst := Follows.prepare (G := G) (L := L) s
        have hsecond := Follows.handle (G := G) (L := L) v
        rw [after_of_ok hprepare] at hfirst
        rw [after_of_ok hhandle] at hsecond
        exact ⟨s', t', rest', (hfirst.trans hsecond).trans hmoves, hlater⟩

end

section

variable {τ : Type} {L : Listener StateName τ} {b : StateName} {s t u : Session StateName τ}
  {limit : Nat}

/-- A character that a run handles has been prepared for, and the rest of the run starts right
after it, on the same line. -/
theorem exists_moves_of_handledFrom (hL : L.IsLocal) (hrun : readFrom grammar L b limit s = .ok () u)
    (ht : t ∈ handledFrom grammar L b limit s) :
    ∃ v t', Moves grammar L s v ∧ prepare v = .ok () t ∧ t'.context.line = t.context.line ∧
      t'.context.location = t.context.location + 1 ∧
        t'.context.location ≤ t'.context.input.length ∧ Moves grammar L t' u := by
  obtain ⟨_, e, henter, hrest⟩ := ok_of_bind hrun
  obtain ⟨_, w, hwalk, hfinish⟩ := ok_of_bind hrest
  rw [handledFrom, henter] at ht
  obtain ⟨v, t', rest, hmoves, hprepare, hinside, hhandle, hlater⟩ :=
    exists_of_mem_handled hwalk ht
  have hentered := Follows.enter (G := grammar) (L := L) b s
  have hwalked := Follows.walk (G := grammar) (L := L) rest t'
  have hfinished := Follows.finish (G := grammar) (L := L) w
  rw [after_of_ok henter] at hentered
  rw [after_of_ok hlater] at hwalked
  rw [after_of_ok hfinish] at hfinished
  obtain ⟨hfooting, hlocation⟩ := after_handle hL hhandle
  have hline : t'.context.line = t.context.line := congrArg Footing.line hfooting
  have hlt : t.context.location < t.context.input.length := by
    simpa [Context.atEnd] using hinside
  refine ⟨v, t', hentered.trans hmoves, hprepare, hline, hlocation, ?_, hwalked.trans hfinished⟩
  rw [hlocation, show t'.context.input = t.context.input from congrArg Line.substituted hline]
  exact hlt

/-- Where a reference is left after a strict run, the `$` starts a replacement, or something has
been replaced after it. -/
theorem replaced_of_refersAt (hL : L.IsLocal) (hall : s.context.settings.ResolveAll)
    (hstrict : s.context.strict = true) (hrun : readFrom grammar L b limit s = .ok () u)
    (ht : t ∈ handledFrom grammar L b limit s) (hon : t.context.expressionsEnabled = true)
    (hleft : u.context.input.RefersAt t.context.location) :
    (∃ r ∈ u.context.line.substitutions,
        r.substitutedIndex = t.context.location ∧ r.replacement.head? = some '$') ∨
      ∃ r ∈ u.context.line.substitutions, r.substitutedIndex = t.context.location + 1 := by
  obtain ⟨v, t', hsofar, hprepare, hline, hlocation, hroom, hafter⟩ :=
    exists_moves_of_handledFrom hL hrun ht
  -- the run so far has changed neither the settings nor the strictness
  have hvall : v.context.settings.ResolveAll := by rwa [hsofar.settings_eq]
  have hsettled := prepare_settles hvall (hsofar.strict_eq.trans hstrict) hprepare hon
  have hinput : t'.context.input = t.context.input := congrArg Line.substituted hline
  have hhere : u.context.input[t.context.location]? = t.context.input[t.context.location]? := by
    have hsame := congrArg (fun taken => taken[t.context.location]?) (hafter.later hroom).settled
    rw [hlocation, List.getElem?_take_of_succ, List.getElem?_take_of_succ, hinput] at hsame
    exact hsame
  have hholds : t'.Holds u (t.context.location + 1) :=
    hafter.holds (Nat.le_of_eq hlocation.symm) hroom
  rcases hholds with hnext | hrecord
  · refine .inl ?_
    have hleft' : t.context.input.RefersAt t.context.location := by
      rw [Text.RefersAt, hhere, hnext, hinput] at hleft
      exact hleft
    obtain ⟨r, hr, hindex, hhead, -⟩ := hsettled.resolve_left fun hnot => hnot hleft'
    rw [← hline] at hr
    exact ⟨r, hafter.keeps_record.subset hr, hindex, hhead.trans hleft'.1⟩
  · exact .inr hrecord

end
end Machine

/-! ## Whole lines -/

open Machine

/-- At each place of a line that a run has handled with expressions enabled, nothing is left to be
resolved. -/
def LeavesNothing {τ : Type} (L : Listener StateName τ) (settings : Settings) (strict : Bool)
    (b : StateName) (text : Text) (gathered : τ) (line : Line) : Prop :=
  ∀ t ∈ handledFrom grammar L b (positionLimit settings text)
      (Session.start settings strict text gathered),
    t.context.expressionsEnabled = true → ¬ line.substituted.RefersAt t.context.location

instance {τ : Type} (L : Listener StateName τ) (settings : Settings) (strict : Bool)
    (b : StateName) (text : Text) (gathered : τ) (line : Line) :
    Decidable (LeavesNothing L settings strict b text gathered line) :=
  inferInstanceAs (Decidable (∀ t ∈ handledFrom grammar L b _ _, _ → _))

/-- Settings in which expressions are resolved and one variable has a value. -/
def Settings.resolvingVariable (name value : Text) : Settings :=
  { Settings.ofVariable name value with resolvesExpressions := true }

/-- A strict run leaves something unresolved on two lines: a replacement that is a variable itself,
and a `$` in front of a variable. -/
theorem not_leavesNothing_of_dollar :
    ((Event.ofLine (.resolvingVariable ['x'] ['$', 'y']) true .arguments (some ['$', 'x'])).2 =
        .ok { line := ⟨['$', 'x'], ['$', 'y'], [⟨['$', 'x'], ['$', 'y'], 0, 0⟩]⟩ } ∧
      ¬ LeavesNothing (Reader.listener Handler.collecting) (.resolvingVariable ['x'] ['$', 'y']) true
        .argumentList ['$', 'x'] ({}, [])
        ⟨['$', 'x'], ['$', 'y'], [⟨['$', 'x'], ['$', 'y'], 0, 0⟩]⟩) ∧
    ((Event.ofLine (.resolvingVariable ['x'] ['b']) true .arguments (some ['$', '$', 'x'])).2 =
        .ok { line := ⟨['$', '$', 'x'], ['$', 'b'], [⟨['$', 'x'], ['b'], 1, 1⟩]⟩ } ∧
      ¬ LeavesNothing (Reader.listener Handler.collecting) (.resolvingVariable ['x'] ['b']) true
        .argumentList ['$', '$', 'x'] ({}, [])
        ⟨['$', '$', 'x'], ['$', 'b'], [⟨['$', 'x'], ['b'], 1, 1⟩]⟩) := by
  refine ⟨⟨?_, ?_⟩, ?_, ?_⟩ <;> decide +kernel

/-- A blank line has no references. -/
theorem Text.not_refersAt_of_isBlankText {text : Text} {index : Nat}
    (h : isBlankText text = true) : ¬ text.RefersAt index := by
  intro hrefers
  exact not_mem_of_isBlankText (by decide) h (List.mem_of_getElem? hrefers.1)

/-- The run behind a line that has been read, unless the line is blank. -/
theorem Graph.run_of_read {σ τ : Type} {G : Graph σ} {L : Listener σ τ} {settings : Settings}
    {strict : Bool} {initial : σ} {line : Option Text} {gathered : τ} {r : Result}
    (hr : (G.read settings strict L initial line gathered).2 = .ok r) :
    isBlankText (line.getD []) = true ∧ r.line = .ofText (line.getD []) ∨
      ∃ u, readFrom G L initial (positionLimit settings (line.getD []))
          (Session.start settings strict (line.getD []) gathered) = .ok () u ∧
        r.line = u.context.line := by
  unfold read at hr
  dsimp only at hr
  split at hr
  · next hblank =>
    cases hr
    exact .inl ⟨hblank, rfl⟩
  · unfold readText at hr
    cases hrun : readFrom G L initial (positionLimit settings (line.getD []))
        (Session.start settings strict (line.getD []) gathered) with
    | error fault u =>
      rw [hrun] at hr
      cases hr
    | ok a u =>
      rw [hrun] at hr
      cases hr
      exact .inr ⟨u, rfl, rfl⟩

/-- A line that has been read for a handler has been read. -/
theorem read_of_readWith {η : Type} {handler : Handler η} {settings : Settings} {strict : Bool}
    {b : StateName} {line : Option Text} {reader : Reader} {gathered : η} {r : Result}
    (hr : (readWith settings strict handler b line reader gathered).2 = .ok r) :
    (grammar.read settings strict (Reader.listener handler) b line (reader, gathered)).2 =
      .ok r := by
  unfold readWith at hr
  cases hheard : grammar.read settings strict (Reader.listener handler) b line
    (reader, gathered) with
  | mk heard outcome =>
    rw [hheard] at hr
    cases outcome with
    | error fault => cases hr
    | ok result =>
      dsimp only at hr
      split at hr <;> cases hr
      rfl

/-- What a strict run leaves unresolved.  When a line has been read strictly, with expressions and
variables configured, and a `$` that was handled with expressions enabled is followed by a brace or
the start of a name in the end, then the `$` is the start of a replacement that was put in at its
place, or something was replaced at the place after it.  Nothing else is left unresolved. -/
theorem leftovers_replaced {η : Type} (handler : Handler η) {settings : Settings}
    (hall : settings.ResolveAll) (entrance : Entrance) (line : Option Text) (reader : Reader)
    (gathered : η) {r : Result}
    (hr : (readWith settings true handler entrance.state line reader gathered).2 = .ok r)
    {t : Session StateName (Reader × η)}
    (ht : t ∈ handledFrom grammar (Reader.listener handler) entrance.state
      (positionLimit settings (line.getD []))
      (Session.start settings true (line.getD []) (reader, gathered)))
    (hon : t.context.expressionsEnabled = true)
    (hleft : r.line.substituted.RefersAt t.context.location) :
    (∃ s ∈ r.line.substitutions,
        s.substitutedIndex = t.context.location ∧ s.replacement.head? = some '$') ∨
      ∃ s ∈ r.line.substitutions, s.substitutedIndex = t.context.location + 1 := by
  rcases Graph.run_of_read (read_of_readWith hr) with ⟨hblank, hline⟩ | ⟨u, hrun, hline⟩
  · rw [hline] at hleft
    exact absurd hleft (Text.not_refersAt_of_isBlankText hblank)
  · rw [hline] at hleft ⊢
    exact replaced_of_refersAt (Reader.isLocal_listener handler) hall rfl hrun ht hon hleft

/-- In `$$x` the first `$` has been handled when the variable after it is replaced. -/
theorem leftovers_replaced_of_dollar :
    (Settings.resolvingVariable ['x'] ['b']).ResolveAll ∧
    (readWith (.resolvingVariable ['x'] ['b']) true Handler.collecting .argumentList
      (some ['$', '$', 'x']) {} []).2 =
        .ok { line := ⟨['$', '$', 'x'], ['$', 'b'], [⟨['$', 'x'], ['b'], 1, 1⟩]⟩ } ∧
    ∃ t ∈ handledFrom grammar (Reader.listener Handler.collecting) .argumentList
        (positionLimit (.resolvingVariable ['x'] ['b']) ['$', '$', 'x'])
        (Session.start (.resolvingVariable ['x'] ['b']) true ['$', '$', 'x'] ({}, [])),
      t.context.expressionsEnabled = true ∧ Text.RefersAt ['$', 'b'] t.context.location ∧
        ((∃ s ∈ [Substitution.mk ['$', 'x'] ['b'] 1 1],
            s.substitutedIndex = t.context.location ∧ s.replacement.head? = some '$') ∨
          ∃ s ∈ [Substitution.mk ['$', 'x'] ['b'] 1 1],
            s.substitutedIndex = t.context.location + 1) := by
  have hall : (Settings.resolvingVariable ['x'] ['b']).ResolveAll := ⟨rfl, rfl⟩
  have hr : (readWith (.resolvingVariable ['x'] ['b']) true Handler.collecting .argumentList
      (some ['$', '$', 'x']) {} []).2 =
        .ok { line := ⟨['$', '$', 'x'], ['$', 'b'], [⟨['$', 'x'], ['b'], 1, 1⟩]⟩ } := by
    decide +kernel
  have hexists : ∃ t ∈ handledFrom grammar (Reader.listener Handler.collecting) .argumentList
      (positionLimit (.resolvingVariable ['x'] ['b']) ['$', '$', 'x'])
      (Session.start (.resolvingVariable ['x'] ['b']) true ['$', '$', 'x'] ({}, [])),
      t.context.expressionsEnabled = true ∧ Text.RefersAt ['$', 'b'] t.context.location := by
    decide +kernel
  obtain ⟨t, ht, hon, hleft⟩ := hexists
  exact ⟨hall, hr, t, ht, hon, hleft, leftovers_replaced Handler.collecting hall .arguments
    (some ['$', '$', 'x']) {} [] hr ht hon hleft⟩

end CommandLine
