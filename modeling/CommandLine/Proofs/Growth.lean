/-
# `CommandLine.Proofs.Growth` — how far a line grows while it is read

A run replaces text in front of its cursor, so the line may grow for ever: the value of `x` need
only hold `$x` again.  Values without a `$` are *inert*.  A default may still hold one, and what it
stands for is read again, but it was typed inside of the expression that it belongs to.  So every
substitution uses up a `$` (`Text.Spends`), and two amounts never rise from one moment of a run to
the next (`Session.Thrifty`):

    substitutions made so far  +  `$` in the line
    length of the line  +  length of the longest value  ×  `$` in the line

The first one bounds the substitutions and the second one the line, which stays below the limit of
the walk.  A run that goes through has then handled each character of the final line exactly once.
-/
import CommandLine.Proofs.Faithful
import Mathlib

namespace CommandLine

open Text

/-! ## What a replacement costs -/

namespace Text

/-- The length of a text in which each `$` counts for `gain` characters more. -/
def weight (gain : Nat) (text : Text) : Nat := text.length + gain * text.count '$'

theorem weight_append (gain : Nat) (first second : Text) :
    weight gain (first ++ second) = weight gain first + weight gain second := by
  simp only [weight, List.length_append, List.count_append, Nat.mul_add]
  omega

theorem weight_of_not_mem {gain : Nat} {text : Text} (h : '$' ∉ text) :
    weight gain text = text.length := by
  rw [weight, List.count_eq_zero_of_not_mem h, Nat.mul_zero, Nat.add_zero]

/-- A typed text weighs no more than the walk may read of it. -/
theorem weight_le (gain : Nat) (text : Text) : weight gain text ≤ text.length * (gain + 1) := by
  have hcount : text.count '$' ≤ text.length := List.count_le_length
  have hgain : gain * text.count '$' ≤ gain * text.length := Nat.mul_le_mul_left gain hcount
  rw [weight, Nat.mul_add, Nat.mul_comm text.length gain]
  omega

/-- A text in place of another one brings in no `$` and no weight. -/
structure Saves (gain : Nat) (text replaced : Text) : Prop where
  dollars : replaced.count '$' ≤ text.count '$'
  weight_le : weight gain replaced ≤ weight gain text

/-- A replacement uses up a `$` of its fragment, and brings in no weight. -/
structure Spends (gain : Nat) (fragment replacement : Text) : Prop where
  dollars : replacement.count '$' < fragment.count '$'
  weight_le : weight gain replacement ≤ weight gain fragment

variable {gain : Nat}

theorem Saves.refl (text : Text) : Saves gain text text := ⟨Nat.le_refl _, Nat.le_refl _⟩

theorem Saves.append {first second first' second' : Text} (h : Saves gain first first')
    (h' : Saves gain second second') : Saves gain (first ++ second) (first' ++ second') where
  dollars := by
    rw [List.count_append, List.count_append]
    exact Nat.add_le_add h.dollars h'.dollars
  weight_le := by
    rw [weight_append, weight_append]
    exact Nat.add_le_add h.weight_le h'.weight_le

theorem Spends.saves {fragment replacement : Text} (h : Spends gain fragment replacement) :
    Saves gain fragment replacement := ⟨Nat.le_of_lt h.dollars, h.weight_le⟩

/-- A short text without a `$` costs the `$` of the fragment. -/
theorem Spends.of_not_mem {fragment replacement : Text} (hdollar : '$' ∈ fragment)
    (hplain : '$' ∉ replacement) (hshort : replacement.length ≤ gain) :
    Spends gain fragment replacement := by
  have hcount : 0 < fragment.count '$' := List.count_pos_iff.2 hdollar
  constructor
  · rw [List.count_eq_zero_of_not_mem hplain]
    exact hcount
  · rw [weight_of_not_mem hplain, weight]
    have hgain : gain * 1 ≤ gain * fragment.count '$' := Nat.mul_le_mul_left gain hcount
    omega

/-- What saves on a part of the text after the `$` costs that `$`. -/
theorem Spends.of_saves {part text replacement : Text} (h : Saves gain part replacement)
    (hpart : part.Sublist text) : Spends gain ('$' :: text) replacement := by
  have hcount := hpart.count_le '$'
  have hlength := hpart.length_le
  constructor
  · rw [List.count_cons_self]
    exact Nat.lt_succ_of_le (Nat.le_trans h.dollars hcount)
  · have hgain : gain * part.count '$' ≤ gain * ('$' :: text).count '$' :=
      Nat.mul_le_mul_left gain (by rw [List.count_cons_self]; omega)
    refine Nat.le_trans h.weight_le ?_
    rw [weight, weight, List.length_cons]
    omega

end Text

/-! ## What names and expressions stand for -/

/-- The text between the braces stands in the expression after its `$`. -/
theorem exists_expression {rest body : Text} (h : body? ('$' :: rest) = some body) :
    ∃ tail, ('$' :: rest).take (expressionLength body) = '$' :: tail ∧ body.Sublist tail := by
  obtain ⟨k, hk, rfl⟩ := Option.map_eq_some_iff.1 h
  have hlt : k < (rest.drop 1).length := closingBrace_lt hk
  have hlength : ((rest.drop 1).take k).length = k := List.length_take_of_le (Nat.le_of_lt hlt)
  refine ⟨rest.take (k + 2), ?_, ?_⟩
  · show ('$' :: rest).take (((rest.drop 1).take k).length + 3) = _
    rw [hlength]
    rfl
  · calc
      ((rest.drop 1).take k).Sublist ((rest.drop 1).take (k + 1)) :=
        (List.take_prefix_take_left (Nat.le_succ k)).sublist
      _ = (rest.take (k + 2)).drop 1 := by
        rw [List.drop_take]
        rfl
      List.Sublist _ (rest.take (k + 2)) := List.drop_sublist _ _

namespace Resolver

variable (r : Resolver)

/-- All values that names can stand for. -/
def values : List Text := (r.properties ++ r.variableValues.getD [] ++ r.environment).map Prod.snd

/-- No value holds a `$`, so what stands for a name is never replaced itself. -/
def IsInert : Prop := ∀ value ∈ r.values, '$' ∉ value

instance : Decidable r.IsInert :=
  inferInstanceAs (Decidable (∀ value ∈ r.values, '$' ∉ value))

variable {r}

theorem length_le_longestValue {value : Text} (h : value ∈ r.values) :
    value.length ≤ r.longestValue := by
  have hmem : value.length ∈ (r.properties ++ r.variableValues.getD [] ++ r.environment).map
      fun entry => entry.2.length := by
    obtain ⟨entry, hentry, rfl⟩ := List.mem_map.1 h
    exact List.mem_map.2 ⟨entry, hentry, rfl⟩
  show value.length ≤ List.foldl max 0 _
  rw [List.foldl_max]
  exact Nat.le_trans (List.le_max?_getD_of_mem hmem) (Nat.le_max_right _ _)

theorem mem_values_of_lookup {names : List (Text × Text)} {name value : Text}
    (h : names.lookup name = some value) : value ∈ names.map Prod.snd := by
  obtain ⟨before, after, rfl, -⟩ := List.lookup_eq_some_iff.1 h
  simp

theorem mem_values_of_lookupFirst {names value : Text} (h : r.lookupFirst names = some value) :
    value ∈ r.values := by
  obtain ⟨name, -, hname⟩ := List.exists_of_findSome?_eq_some h
  unfold lookup at hname
  unfold values
  rw [List.map_append, List.map_append]
  split at hname
  · cases hname
  · split at hname
    · exact List.mem_append_right _ (mem_values_of_lookup hname)
    · exact List.mem_append_left _ (List.mem_append_left _ (mem_values_of_lookup hname))

/-- The value of a name costs the `$` in front of it. -/
theorem spends_of_mem_values {fragment value : Text} (hinert : r.IsInert)
    (hdollar : '$' ∈ fragment) (h : value ∈ r.values) :
    Spends r.longestValue fragment value :=
  .of_not_mem hdollar (hinert value h) (length_le_longestValue h)

/-! ### Defaults -/

theorem eq_dollar_of_opensExpression {c : Char} {rest : Text}
    (h : opensExpression (c :: rest) = true) : c = '$' := by
  simp [opensExpression] at h
  exact h.1.symm

mutual

/-- Resolving a text saves on it: each expression in it spends, and the rest stays. -/
theorem saves_of_resolveText (hinert : r.IsInert) {strict : Bool} {index : Int}
    {text replaced : Text} (h : r.resolveText strict index text = .ok (some replaced)) :
    Saves r.longestValue text replaced := by
  match text with
  | [] =>
    rw [resolveText_nil] at h
    cases h
    exact .refl []
  | c :: rest =>
    cases hopens : opensExpression (c :: rest) with
    | false =>
      rw [resolveText_of_plain r strict index hopens] at h
      obtain ⟨tail, htail, rfl⟩ := exists_of_map_eq_some h
      have hrest := saves_of_resolveText hinert htail
      exact (Saves.refl [c]).append hrest
    | true =>
      obtain rfl := eq_dollar_of_opensExpression hopens
      cases hbody : body? ('$' :: rest) with
      | none =>
        rw [resolveText_of_open r strict index hopens hbody] at h
        cases strict <;> cases h
      | some body =>
        have hlength := body?_length hbody
        rw [resolveText_of_expression r strict index hopens hbody] at h
        split at h
        · cases h
        · cases h
        · next value hvalue =>
          obtain ⟨tail, htail, rfl⟩ := exists_of_map_eq_some h
          obtain ⟨inner, hinner, hsublist⟩ := exists_expression hbody
          have hfirst :
              Saves r.longestValue (('$' :: rest).take (expressionLength body)) value := by
            rw [hinner]
            exact (spends_of_valueOfBody hinert (valueRequired_eq_some hvalue) hsublist).saves
          have hrest := saves_of_resolveText hinert htail
          have hboth := hfirst.append hrest
          rw [List.take_append_drop] at hboth
          exact hboth
termination_by (text.length, 1)
decreasing_by
  all_goals
    simp only [Prod.lex_def, expressionLength, List.length_cons, List.length_drop] at *
    omega

/-- The value of the text between the braces of an expression uses up the `$` before them. -/
theorem spends_of_valueOfBody (hinert : r.IsInert) {strict : Bool} {body inner value : Text}
    (h : r.valueOfBody strict body = .ok (some value)) (hbody : body.Sublist inner) :
    Spends r.longestValue ('$' :: inner) value := by
  rw [valueOfBody] at h
  split at h
  · next hfirst =>
    cases h
    exact spends_of_mem_values hinert List.mem_cons_self (mem_values_of_lookupFirst hfirst)
  · split at h
    · next default hcut =>
      have hshorter := cut_length hcut
      have hdefault : default.Sublist body := by
        rw [cut_of_some hcut]
        exact (List.sublist_cons_self _ _).trans (List.sublist_append_right _ _)
      exact .of_saves (saves_of_resolveText hinert h) (hdefault.trans hbody)
    · cases h
termination_by (body.length, 0)
decreasing_by
  simp only [Prod.lex_def] at *
  omega

end

/-! ### Expressions and variables -/

/-- What an expression stands for uses up a `$` of it. -/
theorem spends_of_resolveExpression (hinert : r.IsInert) {strict : Bool} {index : Int}
    {rest fragment replacement : Text}
    (h : r.resolveExpression strict index ('$' :: rest) = .ok (some (fragment, replacement))) :
    Spends r.longestValue fragment replacement := by
  obtain ⟨body, hbody, rfl, hvalue⟩ := exists_body_of_resolveExpression h
  obtain ⟨inner, hinner, hsublist⟩ := exists_expression hbody
  rw [hinner]
  exact spends_of_valueOfBody hinert hvalue hsublist

/-- What a variable stands for uses up its `$`. -/
theorem spends_of_resolveVariable (hinert : r.IsInert) {strict : Bool} {index : Int}
    {text fragment replacement : Text}
    (h : r.resolveVariable strict index text = .ok (some (fragment, replacement))) :
    Spends r.longestValue fragment replacement := by
  obtain ⟨table, name, htable, -, rfl, hvalue⟩ := exists_name_of_resolveVariable h
  refine spends_of_mem_values hinert List.mem_cons_self ?_
  unfold values
  rw [htable, List.map_append, List.map_append]
  exact List.mem_append_left _ (List.mem_append_right _ (mem_values_of_lookup hvalue))

end Resolver

namespace Context

variable {σ : Type} {c : Context σ} {fragment replacement : Text}

/-- A substitution uses up a `$`. -/
theorem spends_of_resolveHere (hinert : c.settings.resolver.IsInert)
    (h : c.resolveHere = .ok (some (fragment, replacement))) :
    Spends c.settings.resolver.longestValue fragment replacement := by
  unfold resolveHere at h
  split at h
  · split at h
    · exact Resolver.spends_of_resolveExpression hinert (Resolver.resolveExpression_of_resolveWithin h)
    · cases h
  · exact Resolver.spends_of_resolveVariable hinert (Resolver.ok_of_mapError h)
  · cases h

end Context

/-! ## Runs -/

section

variable {σ τ : Type} {G : Graph σ} {L : Listener σ τ} {s t : Session σ τ}
  {settings : Settings} {text : Text}

/-- The substitutions made in a text so far are paid for with its `$`, and the line has not become
heavier than the text was. -/
structure Session.Thrifty (settings : Settings) (text : Text) (s : Session σ τ) : Prop where
  settings_eq : s.context.settings = settings
  dollars : s.context.line.substitutions.length + s.context.input.count '$' ≤ text.count '$'
  weight_le : weight settings.resolver.longestValue s.context.input ≤
    weight settings.resolver.longestValue text

theorem Session.thrifty_start (settings : Settings) (strict : Bool) (text : Text) (gathered : τ) :
    (Session.start (σ := σ) settings strict text gathered).Thrifty settings text where
  settings_eq := rfl
  dollars := Nat.le_of_eq (Nat.zero_add _)
  weight_le := Nat.le_refl _

namespace Session.Thrifty

theorem of_same_line (h : s.Thrifty settings text)
    (hsettings : t.context.settings = s.context.settings)
    (hline : t.context.line = s.context.line) : t.Thrifty settings text := by
  have hinput : t.context.input = s.context.input := congrArg Line.substituted hline
  constructor
  · rw [hsettings, h.settings_eq]
  · rw [hline, hinput]
    exact h.dollars
  · rw [hinput]
    exact h.weight_le

/-- A substitution is paid for with a `$` of the fragment. -/
theorem substitute {fragment replacement : Text} (h : s.Thrifty settings text)
    (hinert : settings.resolver.IsInert)
    (hfound : s.context.resolveHere = .ok (some (fragment, replacement))) :
    ({ s with context := { s.context with
        line := s.context.line.substitute fragment replacement s.context.location } } :
      Session σ τ).Thrifty settings text := by
  obtain rfl := h.settings_eq
  obtain ⟨⟨⟨after, hafter⟩, -⟩, -⟩ := Context.prefix_of_resolveHere hfound
  obtain ⟨hdollars, hweight⟩ := Context.spends_of_resolveHere hinert hfound
  have hbefore : s.context.input =
      s.context.input.take s.context.location ++ (fragment ++ after) := by
    rw [hafter, List.take_append_drop]
  have hrest : s.context.input.drop (s.context.location + fragment.length) = after := by
    rw [← List.drop_drop, ← hafter, List.drop_left]
  have hdollars_before := h.dollars
  have hweight_before := h.weight_le
  rw [hbefore] at hdollars_before hweight_before
  simp only [List.count_append] at hdollars_before
  simp only [weight_append] at hweight_before
  constructor
  · rfl
  · show (s.context.line.substitutions ++ [_]).length +
      (s.context.input.take s.context.location ++ replacement ++
        s.context.input.drop (s.context.location + fragment.length)).count '$' ≤ _
    rw [hrest, List.length_append, List.count_append, List.count_append, List.length_singleton]
    omega
  · show weight _ (s.context.input.take s.context.location ++ replacement ++
        s.context.input.drop (s.context.location + fragment.length)) ≤ _
    rw [hrest, weight_append, weight_append]
    omega

end Session.Thrifty

theorem Move.thrifty (h : Move G L s t) (hinert : settings.resolver.IsInert)
    (hs : s.Thrifty settings text) : t.Thrifty settings text := by
  cases h with
  | opened name room =>
    exact hs.of_same_line (by rw [Context.markValue_eq]) (by rw [Context.markValue_eq])
  | closed popped =>
    exact hs.of_same_line (by rw [Context.unlockValue_eq]) (by rw [Context.unlockValue_eq])
  | told signal => exact hs.of_same_line rfl rfl
  | remembered e lenient => exact hs.of_same_line rfl rfl
  | configured escapes expressions => exact hs.of_same_line rfl rfl
  | substituted found => exact hs.substitute hinert found
  | advanced inside => exact hs.of_same_line rfl rfl

/-- All the substitutions of a run are paid for with the `$` of the typed text. -/
theorem Moves.thrifty {strict : Bool} {gathered : τ} (hinert : settings.resolver.IsInert)
    (h : Moves G L (Session.start settings strict text gathered) t) : t.Thrifty settings text :=
  h.induct (P := fun u => u.Thrifty settings text) (fun m hu => m.thrifty hinert hu)
    (Session.thrifty_start settings strict text gathered)

/-- The line never grows beyond the limit of the walk. -/
theorem Session.Thrifty.length_le (h : s.Thrifty settings text) :
    s.context.input.length ≤ positionLimit settings text := by
  have hweight := h.weight_le
  have hlimit := Text.weight_le settings.resolver.longestValue text
  rw [weight] at hweight
  rw [positionLimit]
  omega

end

/-! ## The walk, one character after the other -/

namespace Machine

section

variable {τ : Type} {L : Listener StateName τ} {s u : Session StateName τ} {b : StateName}
  {limit : Nat} (hL : L.IsLocal)
include hL

/-- A walk that goes through handles the characters in a row, up to the end of the line. -/
theorem locations_handled (h : walk grammar L limit s = .ok () u) :
    u.context.atEnd = true ∧ ∃ count, u.context.location = s.context.location + count ∧
      (handled grammar L limit s).map (fun t => t.context.location) =
        List.range' s.context.location count := by
  induction limit generalizing s with
  | zero =>
    rcases walk_cases h with ⟨hend, hu, hnone⟩ | ⟨rest, t, t', hlimit, -⟩
    · exact ⟨hend, 0, by rw [hu]; rfl, by rw [hnone]; rfl⟩
    · cases hlimit
  | succ limit ih =>
    rcases walk_cases h with ⟨hend, hu, hnone⟩ | ⟨rest, t, t', hlimit, hround⟩
    · exact ⟨hend, 0, by rw [hu]; rfl, by rw [hnone]; rfl⟩
    · cases hlimit
      obtain ⟨hprepare, -, hhandle, hwalk, hhandled⟩ := hround
      obtain ⟨hend, count, hcount, hlocations⟩ := ih hwalk
      have ht : t.context.location = s.context.location := by rw [eq_of_prepare hprepare]
      have ht' : t'.context.location = s.context.location + 1 := by
        rw [(after_handle hL hhandle).2, ht]
      refine ⟨hend, count + 1, by omega, ?_⟩
      rw [hhandled, List.map_cons, hlocations, ht, ht']
      rfl

/-- A run that goes through handles each character of the final line, the first one first. -/
theorem locations_handledFrom (h : readFrom grammar L b limit s = .ok () u)
    (hstart : s.context.location = 0) :
    (handledFrom grammar L b limit s).map (fun t => t.context.location) =
      List.range u.context.input.length := by
  obtain ⟨_, t, henter, hrest⟩ := ok_of_bind h
  obtain ⟨_, v, hwalk, hfinish⟩ := ok_of_bind hrest
  have htlocation : t.context.location = 0 := (within_of_enter hL henter).2.trans hstart
  obtain ⟨hend, count, hcount, hlocations⟩ := locations_handled hL hwalk
  have hlater := (Follows.walk (G := grammar) (L := L) limit t).later (by
    rw [htlocation]
    exact Nat.zero_le _)
  rw [after_of_ok hwalk] at hlater
  -- the walk ends at the end of the line, and what comes after it changes nothing there
  have hlength : count = v.context.input.length := by
    have hinside := hlater.inside
    rw [Context.atEnd, decide_eq_true_iff] at hend
    omega
  have hinput : u.context.input = v.context.input :=
    congrArg (fun f => f.line.substituted) (within_of_finish hL hfinish).1
  rw [handledFrom, henter]
  show (handled grammar L limit t).map _ = _
  rw [hlocations, htlocation, hinput, ← hlength, List.range_eq_range']

end
end Machine

/-! ## Reading comes to its end -/

open Machine

/-- Reading a line comes to its end: it returns or fails as it may, but never because it has gone on
too long.  On the way no more fragments are replaced than the typed line has `$`, and if it
returns from a line that is not blank, the cursor has stood on each character of the substituted
line once, from the first to the last. -/
structure ComesToEnd {τ : Type} (L : Listener StateName τ) (settings : Settings) (strict : Bool)
    (b : StateName) (line : Option Text) (gathered : τ) : Prop where
  ends : Allows (fun fault => settings.Permits strict (line.getD []) fault ∧ fault ≠ .endless)
    (grammar.read settings strict L b line gathered).2
  substitutions : (after (readFrom grammar L b (positionLimit settings (line.getD [])))
    (Session.start settings strict (line.getD []) gathered)).context.line.substitutions.length ≤
      (line.getD []).count '$'
  advances : ∀ {r : Result}, (grammar.read settings strict L b line gathered).2 = .ok r →
    isBlankText (line.getD []) = false →
      (handledFrom grammar L b (positionLimit settings (line.getD []))
          (Session.start settings strict (line.getD []) gathered)).map
          (fun t => t.context.location) =
        List.range r.line.substituted.length

section

variable {τ : Type} {L : Listener StateName τ} {b : StateName}
  {J : List StateName → τ → Prop} {settings : Settings} {strict : Bool}

theorem allows_read_of_isInert (steady : L.SteadyIn b J) (hroot : b.isRoot = true)
    {gathered : τ} (hkept : J [] gathered) (hinert : settings.resolver.IsInert)
    (line : Option Text) :
    Allows (fun fault => settings.Permits strict (line.getD []) fault ∧ fault ≠ .endless)
      (grammar.read settings strict L b line gathered).2 := by
  unfold Graph.read
  dsimp only
  split
  · exact trivial
  · refine (allows_readText_of_limit steady hroot settings strict _ gathered hkept).mono ?_
    rintro fault ⟨hpermits, hendless⟩
    refine ⟨hpermits, fun h => ?_⟩
    obtain ⟨t, hmoves, hlong⟩ := hendless h
    exact absurd (hmoves.thrifty hinert).length_le (Nat.not_le_of_lt hlong)

theorem comesToEnd (steady : L.SteadyIn b J) (hL : L.IsLocal) (hroot : b.isRoot = true)
    {gathered : τ} (hkept : J [] gathered) (hinert : settings.resolver.IsInert)
    (line : Option Text) : ComesToEnd L settings strict b line gathered where
  ends := allows_read_of_isInert steady hroot hkept hinert line
  substitutions := by
    have hmoves := Follows.readFrom (G := grammar) (L := L) b
      (positionLimit settings (line.getD []))
      (Session.start settings strict (line.getD []) gathered)
    exact Nat.le_trans (Nat.le_add_right _ _) (hmoves.thrifty hinert).dollars
  advances := by
    intro r hr hsolid
    unfold Graph.read Graph.readText at hr
    dsimp only at hr
    rw [hsolid] at hr
    cases hrun : readFrom grammar L b (positionLimit settings (line.getD []))
        (Session.start settings strict (line.getD []) gathered) with
    | error fault u =>
      rw [hrun] at hr
      cases hr
    | ok a u =>
      rw [hrun] at hr
      cases hr
      exact locations_handledFrom hL hrun rfl

end

/-- Where no value of a property, a variable or the environment holds a `$`, reading any line comes
to its end, from every state that a line is read from, strictly and leniently.  A default in the
line may hold a `$` all the same. -/
theorem reading_comes_to_end (settings : Settings) (hinert : settings.resolver.IsInert)
    (strict : Bool) (line : Option Text) :
    (∀ {η : Type} (handler : Handler η), handler.IsFair →
      ∀ (entrance : Entrance) (reader : Reader) (gathered : η),
        ComesToEnd (Reader.listener handler) settings strict entrance.state line
          (reader, gathered)) ∧
    ComesToEnd Value.Builder.listener settings strict .value line {} ∧
    ComesToEnd TypedValue.listener settings strict .typedStart line [] := by
  refine ⟨?_, ?_, ?_⟩
  · intro η handler hfair entrance reader gathered
    have steady : (Reader.listener handler).SteadyIn entrance.state fun _ _ => True := by
      intro character
      exact Reader.steady_listener hfair entrance.not_readsItems
    exact comesToEnd steady (Reader.isLocal_listener handler) entrance.isRoot_state trivial hinert
      line
  · have hkept : Value.Builder.Levels [] {} := rfl
    exact comesToEnd Value.Builder.steady_builder Value.Builder.isLocal_listener rfl hkept hinert
      line
  · exact comesToEnd TypedValue.steady_typed TypedValue.isLocal_listener rfl trivial hinert line

/-- The default of `${a:b$x}` brings in a `$`, which is used up by the value of `x`. -/
theorem reading_comes_to_end_of_default :
    (Settings.ofVariable ['x'] ['c']).resolver.IsInert ∧ Command.handler.IsFair ∧
      (grammar.read { Settings.ofVariable ['x'] ['c'] with resolvesExpressions := true } true
          (Reader.listener Command.handler) .argumentList
          (some ['$', '{', 'a', ':', 'b', '$', 'x', '}']) ({}, .relativeTo [])).2 =
        .ok { line := ⟨['$', '{', 'a', ':', 'b', '$', 'x', '}'], ['b', 'c'],
          [⟨['$', '{', 'a', ':', 'b', '$', 'x', '}'], ['b', '$', 'x'], 0, 0⟩,
            ⟨['$', 'x'], ['c'], 1, 6⟩]⟩ } ∧
      ComesToEnd (Reader.listener Command.handler)
        { Settings.ofVariable ['x'] ['c'] with resolvesExpressions := true } true .argumentList
        (some ['$', '{', 'a', ':', 'b', '$', 'x', '}']) ({}, .relativeTo []) := by
  have hinert : (Settings.ofVariable ['x'] ['c']).resolver.IsInert := by decide
  refine ⟨hinert, Command.isFair_handler, ?_, ?_⟩
  · set_option maxRecDepth 20000 in
      cbv
  · exact (reading_comes_to_end { Settings.ofVariable ['x'] ['c'] with resolvesExpressions := true }
      hinert true _).1 Command.handler Command.isFair_handler .arguments {} (.relativeTo [])

end CommandLine
