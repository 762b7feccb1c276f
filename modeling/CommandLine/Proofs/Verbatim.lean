/-
# `CommandLine.Proofs.Verbatim` — what a lenient run leaves of an expression that has no value

Lenient reading leaves an expression as it is when it has no value, and goes on with the character
after its `$`.  So the cursor comes to everything that is nested in the expression:

    `${u:${a}${v}}`, `a` ↦ `1`    the default has no value, its first expression has    (`${u:1${v}}`)
    `${$x}`, `x` ↦ `b`            names are taken as they are, variables are not        (`${b}`)

What is nested is resolved on its own then, and the expression does not stay verbatim.  The main
result says that there is nothing else: an expression that is met closed and left either stands in
the line at the end, or something that lies inside it and starts with a `$` has been replaced
(`unresolved_expression_stays`).

    the `$` is handled                    the line stays as it is
    the cursor is inside the expression   nothing is replaced, or something inside
                                          (`Context.resolved_inside`)
    the cursor is behind it               what stands before the cursor stays
                                          (`prefix_drop_of_take`)
-/
import CommandLine.Proofs.Leftovers

namespace CommandLine

open Text

/-! ## The closing brace -/

/-- How many braces are open after a character that does not close the outermost one. -/
def braceDepth (depth : Nat) (c : Char) : Nat :=
  if c = '}' then depth - 1 else if c = '{' then depth + 1 else depth

section

variable {text other : Text} {depth inner j k : Nat} {c : Char} {rest : Text}

theorem closingBrace_cons (depth : Nat) (c : Char) (rest : Text) :
    closingBrace depth (c :: rest) =
      if c = '}' ∧ depth ≤ 1 then some 0
      else (closingBrace (braceDepth depth c) rest).map (· + 1) := by
  rw [closingBrace, braceDepth]
  by_cases hclosing : c = '}' <;> by_cases hopening : c = '{' <;> simp [hclosing, hopening]

theorem braceDepth_lt (hlt : inner < depth) (hinner : ¬ (c = '}' ∧ inner ≤ 1)) :
    braceDepth inner c < braceDepth depth c := by
  unfold braceDepth
  split
  · next hclosing =>
    have hdeep : ¬ inner ≤ 1 := fun h => hinner ⟨hclosing, h⟩
    omega
  · split <;> omega

theorem one_le_braceDepth (hpos : 1 ≤ depth) (hopen : ¬ (c = '}' ∧ depth ≤ 1)) :
    1 ≤ braceDepth depth c := by
  unfold braceDepth
  split
  · next hclosing =>
    have hdeep : ¬ depth ≤ 1 := fun h => hopen ⟨hclosing, h⟩
    omega
  · split <;> omega

/-- Before the closing brace there is always a brace to close. -/
theorem closingBrace_drop (hpos : 1 ≤ depth) (h : closingBrace depth text = some k)
    (hj : j ≤ k) : ∃ next, 1 ≤ next ∧ closingBrace next (text.drop j) = some (k - j) := by
  induction j generalizing text depth k with
  | zero => exact ⟨depth, hpos, h⟩
  | succ j ih =>
    cases text with
    | nil => cases h
    | cons c rest =>
      rw [closingBrace_cons] at h
      split at h
      · cases h
        exact absurd hj (Nat.not_succ_le_zero j)
      · next hopen =>
        obtain ⟨k, hrest, rfl⟩ := Option.map_eq_some_iff.1 h
        rw [List.drop_succ_cons, Nat.add_sub_add_right]
        exact ih (one_le_braceDepth hpos hopen) hrest (Nat.le_of_succ_le_succ hj)

/-- Inner braces are closed before outer ones. -/
theorem closingBrace_of_lt (h : closingBrace depth text = some k) (hpos : 1 ≤ inner)
    (hlt : inner < depth) : ∃ m, m < k ∧ closingBrace inner text = some m := by
  induction text generalizing depth inner k with
  | nil => cases h
  | cons c rest ih =>
    rw [closingBrace_cons] at h ⊢
    rw [if_neg (fun hclosing => absurd hclosing.2 (by omega))] at h
    obtain ⟨k, hrest, rfl⟩ := Option.map_eq_some_iff.1 h
    split
    · exact ⟨0, Nat.succ_pos k, rfl⟩
    · next hopen =>
      obtain ⟨m, hm, hinner⟩ := ih hrest (one_le_braceDepth hpos hopen) (braceDepth_lt hlt hopen)
      exact ⟨m + 1, Nat.succ_lt_succ hm, by rw [hinner]; rfl⟩

/-- The characters behind the closing brace do not matter. -/
theorem closingBrace_congr (h : closingBrace depth text = some k)
    (hsame : other.take (k + 1) = text.take (k + 1)) : closingBrace depth other = some k := by
  induction text generalizing depth other k with
  | nil => cases h
  | cons c rest ih =>
    cases other with
    | nil => cases hsame
    | cons e behind =>
      rw [List.take_succ_cons, List.take_succ_cons, List.cons.injEq] at hsame
      obtain ⟨rfl, hsame⟩ := hsame
      rw [closingBrace_cons] at h ⊢
      split at h
      · next hclosing =>
        rw [if_pos hclosing]
        exact h
      · next hopen =>
        obtain ⟨k, hrest, rfl⟩ := Option.map_eq_some_iff.1 h
        rw [if_neg hopen, ih hrest hsame]
        rfl

theorem getElem?_closingBrace (h : closingBrace depth text = some k) : text[k]? = some '}' := by
  induction text generalizing depth k with
  | nil => cases h
  | cons c rest ih =>
    rw [closingBrace_cons] at h
    split at h
    · next hclosing =>
      cases h
      exact congrArg some hclosing.1
    · obtain ⟨k, hrest, rfl⟩ := Option.map_eq_some_iff.1 h
      exact ih hrest

end

/-! ## Closed expressions -/

/-- The text is an expression with its closing brace. -/
structure IsExpression (expression : Text) : Prop where
  opens : ∃ inner, expression = '$' :: '{' :: inner
  closes : closingBrace 1 (expression.drop 2) = some (expression.length - 3)

/-- What stands between the opening and the closing brace makes an expression. -/
theorem isExpression_of_body? {text body : Text} (hopens : opensExpression text = true)
    (hbody : body? text = some body) : IsExpression (text.take (expressionLength body)) := by
  obtain ⟨inner, rfl⟩ := List.isPrefixOf_iff_prefix.1 hopens
  obtain ⟨k, hk, rfl⟩ := Option.map_eq_some_iff.1 hbody
  have hlt := closingBrace_lt hk
  have hk' : closingBrace 1 inner = some k := hk
  have hlength : (inner.take k).length = k := List.length_take_of_le (Nat.le_of_lt hlt)
  have htake : (['$', '{'] ++ inner).take (expressionLength (inner.take k)) =
      '$' :: '{' :: inner.take (k + 1) := by
    rw [expressionLength, hlength]
    rfl
  show IsExpression ((['$', '{'] ++ inner).take (expressionLength (inner.take k)))
  rw [htake]
  refine ⟨⟨_, rfl⟩, ?_⟩
  have hsame : closingBrace 1 (inner.take (k + 1)) = some k :=
    closingBrace_congr hk' (by rw [List.take_take, Nat.min_self])
  have htaken : (inner.take (k + 1)).length = k + 1 := List.length_take_of_le hlt
  show closingBrace 1 (inner.take (k + 1)) = some ((inner.take (k + 1)).length + 1 + 1 - 3)
  rw [hsame, htaken]
  rfl

namespace IsExpression

variable {expression rest tail body name : Text} {i : Nat} {next : Char}

/-- An expression that starts inside another one ends inside it. -/
theorem expression_inside (h : IsExpression expression) (hpos : 0 < i)
    (hlt : i < expression.length) (hdrop : expression.drop i ++ rest = '$' :: '{' :: tail)
    (hbody : body? ('$' :: '{' :: tail) = some body) :
    i + expressionLength body ≤ expression.length := by
  obtain ⟨⟨inner, rfl⟩, hcloses⟩ := h
  obtain ⟨j, rfl⟩ : ∃ j, i = j + 2 := by
    match i, hpos with
    | 1, _ => cases hdrop
    | j + 2, _ => exact ⟨j, rfl⟩
  rw [List.length_cons, List.length_cons] at hlt hcloses ⊢
  rw [List.drop_succ_cons, List.drop_succ_cons] at hdrop
  rw [List.drop_succ_cons, List.drop_succ_cons, List.drop_zero] at hcloses
  have hinside := closingBrace_lt hcloses
  obtain ⟨depth, hdepth, hclose⟩ := closingBrace_drop (Nat.le_refl 1) hcloses
    (j := j) (by omega)
  have hmore : closingBrace depth (inner.drop j ++ rest) = some (inner.length + 1 + 1 - 3 - j) := by
    refine closingBrace_congr hclose (List.take_append_of_le_length ?_)
    rw [List.length_drop]
    omega
  rw [hdrop, closingBrace_cons, if_neg (fun hc => absurd hc.1 (by decide))] at hmore
  obtain ⟨m, hdollar, hm⟩ := Option.map_eq_some_iff.1 hmore
  rw [closingBrace_cons, if_neg (fun hc => absurd hc.1 (by decide))] at hdollar
  obtain ⟨n, houter, hn⟩ := Option.map_eq_some_iff.1 hdollar
  have hdeeper : 1 < braceDepth (braceDepth depth '$') '{' := Nat.lt_succ_of_le hdepth
  obtain ⟨l, hl, hfirst⟩ := closingBrace_of_lt houter (Nat.le_refl 1) hdeeper
  have hbody' : (closingBrace 1 tail).map tail.take = some body := hbody
  rw [hfirst] at hbody'
  cases hbody'
  have hbodyLength : (tail.take l).length ≤ l := List.length_take_le _ _
  show j + 2 + ((tail.take l).length + 3) ≤ inner.length + 1 + 1
  omega

/-- A stretch ends before a character that does not belong to it. -/
theorem length_takeWhile_lt {α : Type} {p : α → Bool} {x : α} {front : List α} (hx : x ∈ front)
    (hp : p x = false) (behind : List α) :
    ((front ++ behind).takeWhile p).length < front.length := by
  have hfront := List.takeWhile_prefix (l := front) p
  have hne : (front.takeWhile p).length ≠ front.length := by
    intro hlength
    have hall : (front.takeWhile p).all p = true := List.all_takeWhile
    rw [hfront.eq_of_length hlength] at hall
    exact nomatch hp.symm.trans (List.all_eq_true.1 hall x hx)
  rw [List.takeWhile_append, if_neg hne]
  exact Nat.lt_of_le_of_ne hfront.length_le hne

/-- A variable that starts inside an expression ends inside it. -/
theorem variable_inside (h : IsExpression expression) (hlt : i < expression.length)
    (hdrop : expression.drop i ++ rest = '$' :: next :: tail)
    (hname : Resolver.variableName? ('$' :: next :: tail) = some name) :
    i + (name.length + 1) ≤ expression.length := by
  have hsplit := List.drop_eq_getElem_cons hlt
  rw [hsplit, List.cons_append, List.cons.injEq] at hdrop
  obtain ⟨hdollar, hbehind⟩ := hdrop
  -- the closing brace stands behind the `$` and is no part of the name
  have hclosing : expression[expression.length - 1]? = some '}' := by
    obtain ⟨⟨inner, rfl⟩, hcloses⟩ := h
    have hbrace := getElem?_closingBrace hcloses
    have hinside := closingBrace_lt hcloses
    rw [List.drop_succ_cons, List.drop_succ_cons, List.drop_zero] at hbrace hinside
    rw [List.length_cons, List.length_cons] at hbrace hinside ⊢
    rw [show inner.length + 1 + 1 - 1 = inner.length + 1 + 1 - 3 + 1 + 1 by omega]
    exact hbrace
  have hne : i ≠ expression.length - 1 := by
    rintro rfl
    rw [List.getElem?_eq_getElem hlt, hdollar] at hclosing
    exact absurd hclosing (by decide)
  have hmem : '}' ∈ expression.drop (i + 1) := by
    refine List.mem_of_getElem? (i := expression.length - 1 - (i + 1)) ?_
    rw [List.getElem?_drop, ← hclosing]
    congr 1
    omega
  have hname' : (next :: tail).takeWhile continuesName = name := by
    unfold Resolver.variableName? at hname
    rw [List.drop_one, List.tail_cons] at hname
    dsimp only at hname
    split at hname <;> cases hname
    rfl
  have hshort := length_takeWhile_lt hmem (by decide : continuesName '}' = false) rest
  rw [hbehind, hname', List.length_drop] at hshort
  omega

end IsExpression

/-! ## What is replaced inside an expression -/

/-- The substitution replaced something that starts with a `$` and lies inside the expression at
the place, behind its first character. -/
def Substitution.Inside (r : Substitution) (expression : Text) (place : Nat) : Prop :=
  ∃ i : Nat, 0 < i ∧ r.substitutedIndex = ↑(place + i) ∧ r.fragment.head? = some '$' ∧
    r.fragment <+: expression.drop i

/-- The expression stands at the place of the line, or something inside it has been replaced. -/
def Line.Keeps (line : Line) (expression : Text) (place : Nat) : Prop :=
  expression <+: line.substituted.drop place ∨
    ∃ r ∈ line.substitutions, r.Inside expression place

section

variable {σ τ : Type} {G : Graph σ} {L : Listener σ τ} {s t : Session σ τ} {c : Context σ}
  {expression fragment replacement : Text} {place i : Nat}

/-- What is resolved inside an expression lies inside it. -/
theorem Context.resolved_inside (hexpression : IsExpression expression)
    (hstands : expression <+: c.input.drop place) (hpos : 0 < i) (hlt : i < expression.length)
    (hlocation : c.location = place + i)
    (h : c.resolveHere = .ok (some (fragment, replacement))) :
    fragment.head? = some '$' ∧ fragment <+: expression.drop i := by
  obtain ⟨rest, hrest⟩ := hstands
  have hhere : expression.drop i ++ rest = c.input.drop c.location := by
    rw [hlocation, ← List.drop_drop, ← hrest, List.drop_append_of_le_length (Nat.le_of_lt hlt)]
  obtain ⟨⟨hfront, hne⟩, behind, hdollar⟩ := prefix_of_resolveHere h
  have hhead : fragment.head? = some '$' := by
    obtain ⟨d, tail, rfl⟩ := List.exists_cons_of_ne_nil hne
    rw [hdollar, List.cons_prefix_cons] at hfront
    rw [hfront.1]
    rfl
  have hlength : i + fragment.length ≤ expression.length := by
    unfold resolveHere at h
    split at h
    · next tail hdrop =>
      split at h
      · obtain ⟨body, hbody, rfl, -⟩ :=
          Resolver.exists_body_of_resolveExpression (Resolver.resolveExpression_of_resolveWithin h)
        have hinside := hexpression.expression_inside hpos hlt (hhere.trans hdrop) hbody
        have htake := List.length_take_le (expressionLength body) ('$' :: '{' :: tail)
        omega
      · cases h
    · next next tail _ hdrop =>
      obtain ⟨table, name, -, hname, rfl, -⟩ :=
        Resolver.exists_name_of_resolveVariable (Resolver.ok_of_mapError h)
      exact hexpression.variable_inside hlt (hhere.trans hdrop) hname
    · cases h
  refine ⟨hhead, ?_⟩
  rw [← hhere] at hfront
  refine List.prefix_of_prefix_length_le hfront (List.prefix_append _ _) ?_
  rw [List.length_drop]
  omega

/-- What stands before the cursor stays. -/
theorem prefix_drop_of_take {text other : Text} {m : Nat} (hsame : other.take m = text.take m)
    (hle : place + expression.length ≤ m) (h : expression <+: text.drop place) :
    expression <+: other.drop place := by
  have htaken : expression <+: (text.take m).drop place := by
    rw [List.drop_take, List.prefix_take_iff]
    exact ⟨h, by omega⟩
  rw [← hsame, List.drop_take, List.prefix_take_iff] at htaken
  exact htaken.1

/-- A move with the cursor behind the `$` of an expression. -/
theorem Move.keeps_expression (h : Move G L s t) (hexpression : IsExpression expression)
    (hlt : place < s.context.location) (inside : s.context.location ≤ s.context.input.length)
    (hkeeps : s.context.line.Keeps expression place) : t.context.line.Keeps expression place := by
  rcases hkeeps with hstands | ⟨r, hr, hinside⟩
  · rcases h.line_cases with hline | ⟨fragment, replacement, found, hline⟩
    · rw [hline]
      exact .inl hstands
    · by_cases hbehind : place + expression.length ≤ s.context.location
      · exact .inl (prefix_drop_of_take (h.later inside).settled hbehind hstands)
      · obtain ⟨i, hi⟩ := Nat.exists_eq_add_of_lt hlt
        have hlocation : s.context.location = place + (i + 1) := hi
        obtain ⟨hhead, hprefix⟩ := Context.resolved_inside hexpression hstands (Nat.succ_pos i)
          (by omega) hlocation found
        rw [hline]
        exact .inr ⟨_, List.mem_append_right _ List.mem_cons_self, i + 1, Nat.succ_pos i,
          congrArg Nat.cast hlocation, hhead, hprefix⟩
  · exact .inr ⟨r, h.keeps_record.subset hr, hinside⟩

theorem Moves.keeps_expression (h : Moves G L s t) (hexpression : IsExpression expression)
    (hlt : place < s.context.location) (inside : s.context.location ≤ s.context.input.length)
    (hkeeps : s.context.line.Keeps expression place) : t.context.line.Keeps expression place := by
  refine (h.induct (P := fun u => Later s u ∧ u.context.line.Keeps expression place)
    (fun m hu => ?_) ⟨.refl inside, hkeeps⟩).2
  obtain ⟨hlater, hsofar⟩ := hu
  exact ⟨hlater.trans (m.later hlater.inside), m.keeps_expression hexpression
    (Nat.lt_of_lt_of_le hlt hlater.forward) hlater.inside hsofar⟩

end

/-! ## Whole lines -/

/-- The cursor stands on a closed expression that is left as it is, because it has no value. -/
structure Context.Leaves {σ : Type} (c : Context σ) (expression : Text) : Prop where
  enabled : c.expressionsEnabled = true
  configured : c.settings.resolvesExpressions = true
  opens : opensExpression (c.input.drop c.location) = true
  closed : ∃ body, body? (c.input.drop c.location) = some body ∧
    expression = (c.input.drop c.location).take (expressionLength body)
  left : c.settings.resolver.resolveExpression c.strict c.location (c.input.drop c.location) =
    .ok none

section

variable {σ τ : Type} {G : Graph σ} {L : Listener σ τ} {s t : Session σ τ} {c : Context σ}
  {expression : Text}

theorem Context.Leaves.isExpression (h : c.Leaves expression) : IsExpression expression := by
  obtain ⟨body, hbody, rfl⟩ := h.closed
  exact isExpression_of_body? h.opens hbody

theorem Context.Leaves.stands (h : c.Leaves expression) :
    expression <+: c.input.drop c.location := by
  obtain ⟨body, -, rfl⟩ := h.closed
  exact List.take_prefix _ _

theorem Context.Leaves.dollar_mem (h : c.Leaves expression) : '$' ∈ c.input := by
  obtain ⟨rest, hrest⟩ := List.isPrefixOf_iff_prefix.1 h.opens
  have hmem : '$' ∈ c.input.drop c.location := by
    rw [← hrest]
    exact List.mem_cons_self
  exact List.mem_of_mem_drop hmem

/-- A line without a `$` stays as it is. -/
theorem Moves.line_of_not_mem (h : Moves G L s t) (hnone : '$' ∉ s.context.input) :
    t.context.line = s.context.line := by
  refine h.induct (P := fun u => u.context.line = s.context.line) (fun {u v} m hu => ?_) rfl
  rcases m.line_cases with hline | ⟨fragment, replacement, found, -⟩
  · exact hline.trans hu
  · obtain ⟨-, rest, hdollar⟩ := Context.prefix_of_resolveHere found
    have hmem : '$' ∈ u.context.input := List.mem_of_mem_drop (hdollar ▸ List.mem_cons_self)
    rw [show u.context.input = s.context.input from congrArg Line.substituted hu] at hmem
    exact absurd hmem hnone

end

namespace Machine

variable {τ : Type} {L : Listener StateName τ} {b : StateName} {s t u : Session StateName τ}
  {limit : Nat} {expression : Text}

/-- An expression on which a character has been handled stays, or something inside it is
replaced. -/
theorem keeps_of_handledFrom (hL : L.IsLocal) (hrun : readFrom grammar L b limit s = .ok () u)
    (ht : t ∈ handledFrom grammar L b limit s) (hexpression : IsExpression expression)
    (hstands : expression <+: t.context.input.drop t.context.location) :
    u.context.line.Keeps expression t.context.location := by
  obtain ⟨v, t', -, -, hline, hlocation, hroom, hafter⟩ := exists_moves_of_handledFrom hL hrun ht
  refine hafter.keeps_expression hexpression ?_ hroom (.inl ?_)
  · rw [hlocation]
    exact Nat.lt_succ_self _
  · rw [hline]
    exact hstands

end Machine

open Machine

/-- What a lenient run leaves of an expression that has no value.  Whenever a line has been read
leniently, from any state on and for any listener that looks at the line under the cursor only, and
the cursor has come to a closed expression that was left as it is, the expression stands at its
place in the end, or something that starts with a `$` and lies inside it has been replaced.  Where
nothing inside an expression can be resolved it stays verbatim. -/
theorem unresolved_expression_stays {τ : Type} {L : Listener StateName τ} (hL : L.IsLocal)
    {settings : Settings} (b : StateName) (line : Option Text) (gathered : τ) {r : Result}
    (hr : (grammar.read settings false L b line gathered).2 = .ok r)
    {t : Session StateName τ}
    (ht : t ∈ handledFrom grammar L b (positionLimit settings (line.getD []))
      (Session.start settings false (line.getD []) gathered))
    {expression : Text} (hleft : t.context.Leaves expression) :
    r.line.Keeps expression t.context.location := by
  rcases Graph.run_of_read hr with ⟨hblank, -⟩ | ⟨u, hrun, hline⟩
  · have hnone : '$' ∉ line.getD [] := not_mem_of_isBlankText (by decide) hblank
    have hsame : t.context.input = line.getD [] :=
      congrArg Line.substituted ((moves_of_handledFrom ht).line_of_not_mem hnone)
    exact absurd (hsame ▸ hleft.dollar_mem) hnone
  · rw [hline]
    exact keeps_of_handledFrom hL hrun ht hleft.isExpression hleft.stands

/-- A run in which nothing is replaced before the first character goes on with the second one. -/
theorem readFrom_of_left {τ : Type} {L : Listener StateName τ} {b : StateName} {limit : Nat}
    {s e t : Session StateName τ} (henter : enter grammar L b s = .ok () e)
    (hinside : e.context.atEnd = false) (hprepare : prepare e = .ok () e)
    (hhandle : handle grammar L e = .ok () t) :
    readFrom grammar L b (limit + 1) s = (walk grammar L limit >>= fun _ => finish grammar L) t ∧
      handledFrom grammar L b (limit + 1) s = e :: handled grammar L limit t := by
  constructor
  · have hwalk : walk grammar L (limit + 1) e = walk grammar L limit t := by
      rw [walk_succ_of_prepare hinside hprepare hinside, bind_apply_of_ok hhandle]
    rw [readFrom, bind_apply_of_ok henter]
    cases hrest : walk grammar L limit t with
    | ok a u => rw [bind_apply_of_ok (hwalk.trans hrest), bind_apply_of_ok hrest]
    | error fault u => rw [bind_apply_of_error (hwalk.trans hrest), bind_apply_of_error hrest]
  · rw [handledFrom, henter]
    exact handled_of_inside hinside hprepare hinside hhandle

/-! ### A variable inside an expression -/

/-- A line with a variable inside an expression. -/
def nestedVariable : Text := ['$', '{', '$', 'x', '}']

/-- The session in which the first character of that line is handled. -/
def nestedSession : Session StateName (Reader × List Event) :=
  after (enter grammar (Reader.listener Handler.collecting) .argumentList)
    (Session.start (.resolvingVariable ['x'] ['b']) false nestedVariable ({}, []))

/-- A name in an expression is taken as it is. -/
theorem leaves_nestedSession : nestedSession.context.Leaves nestedVariable := by
  refine ⟨rfl, rfl, by decide, ⟨['$', 'x'], by decide, rfl⟩, ?_⟩
  have hvalue : (Settings.resolvingVariable ['x'] ['b']).resolver.valueOfBody false ['$', 'x'] =
      .ok none := by
    rw [Resolver.valueOfBody]
    rfl
  have hbody : body? nestedVariable = some ['$', 'x'] := by decide
  show (Settings.resolvingVariable ['x'] ['b']).resolver.resolveExpression false 0 nestedVariable =
    .ok none
  unfold Resolver.resolveExpression
  rw [hbody]
  dsimp only
  rw [hvalue]
  rfl

/-- The run over the line. -/
abbrev nestedRead : (Reader × List Event) × Except Fault Result :=
  grammar.read (.resolvingVariable ['x'] ['b']) false (Reader.listener Handler.collecting)
    .argumentList (some nestedVariable) ({}, [])

/-- The rest of the line is read from the second character on. -/
theorem read_nestedVariable :
    nestedRead.2 =
        .ok { line := ⟨nestedVariable, ['$', '{', 'b', '}'], [⟨['$', 'x'], ['b'], 2, 2⟩]⟩ } ∧
      nestedSession ∈ handledFrom grammar (Reader.listener Handler.collecting) .argumentList
        (positionLimit (.resolvingVariable ['x'] ['b']) nestedVariable)
        (Session.start (.resolvingVariable ['x'] ['b']) false nestedVariable ({}, [])) := by
  have hhere : nestedSession.context.resolveHere = .ok none := by
    show Resolver.resolveWithin _ _ _ nestedVariable = _
    rw [Resolver.resolveWithin_of_length_le (by decide)]
    exact congrArg (Except.mapError Fault.format) leaves_nestedSession.left
  have hprepare : prepare nestedSession = .ok () nestedSession := by
    rw [prepare, context_bind_apply, if_pos leaves_nestedSession.enabled, resolve_apply,
      Context.resolve_of_none hhere]
  have hhandle : handle grammar (Reader.listener Handler.collecting) nestedSession =
      .ok () (after (handle grammar (Reader.listener Handler.collecting)) nestedSession) := rfl
  obtain ⟨hrun, hhandled⟩ := readFrom_of_left (L := Reader.listener Handler.collecting)
    (b := .argumentList) (s := Session.start (.resolvingVariable ['x'] ['b']) false nestedVariable
      ({}, [])) rfl rfl hprepare hhandle
  constructor
  · rw [nestedRead, Graph.read_of_not_isBlankText (by decide), Graph.readText]
    have hlimit : positionLimit (.resolvingVariable ['x'] ['b']) nestedVariable = 1048585 + 1 := by
      decide
    rw [hlimit, hrun]
    decide +kernel
  · exact hhandled ▸ List.mem_cons_self

/-- The variable lies inside the expression. -/
theorem unresolved_expression_stays_of_nestedVariable :
    (Reader.listener Handler.collecting).IsLocal ∧
      nestedRead.2 =
        .ok { line := ⟨nestedVariable, ['$', '{', 'b', '}'], [⟨['$', 'x'], ['b'], 2, 2⟩]⟩ } ∧
      nestedSession ∈ handledFrom grammar (Reader.listener Handler.collecting) .argumentList
        (positionLimit (.resolvingVariable ['x'] ['b']) nestedVariable)
        (Session.start (.resolvingVariable ['x'] ['b']) false nestedVariable ({}, [])) ∧
      nestedSession.context.Leaves nestedVariable ∧
      Line.Keeps ⟨nestedVariable, ['$', '{', 'b', '}'], [⟨['$', 'x'], ['b'], 2, 2⟩]⟩
        nestedVariable nestedSession.context.location := by
  have hlocal := Reader.isLocal_listener Handler.collecting
  obtain ⟨hr, ht⟩ := read_nestedVariable
  exact ⟨hlocal, hr, ht, leaves_nestedSession, unresolved_expression_stays hlocal .argumentList
    (some nestedVariable) ({}, []) hr ht leaves_nestedSession⟩

/-- The variable is replaced, although the expression around it has been left as it is. -/
theorem not_verbatim_of_nestedVariable :
    nestedRead.2 =
        .ok { line := ⟨nestedVariable, ['$', '{', 'b', '}'], [⟨['$', 'x'], ['b'], 2, 2⟩]⟩ } ∧
      nestedSession ∈ handledFrom grammar (Reader.listener Handler.collecting) .argumentList
        (positionLimit (.resolvingVariable ['x'] ['b']) nestedVariable)
        (Session.start (.resolvingVariable ['x'] ['b']) false nestedVariable ({}, [])) ∧
      nestedSession.context.Leaves nestedVariable ∧
      ¬ nestedVariable <+: ['$', '{', 'b', '}'].drop nestedSession.context.location := by
  obtain ⟨hr, ht⟩ := read_nestedVariable
  refine ⟨hr, ht, leaves_nestedSession, ?_⟩
  show ¬ nestedVariable <+: ['$', '{', 'b', '}']
  decide

end CommandLine
