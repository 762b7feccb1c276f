/-
# `CommandLine.Proofs.Faithful` — the record that a run leaves is faithful

A run replaces what stands under its cursor, and the cursor never goes back.  As long as no
replacement brings in a new `$`, each fragment is then text that was typed, behind all that was
replaced before: the line is edited (`Line.Edited`) at each moment, and no `$` of a replacement is
left for the cursor (`Context.Scripted`).  This holds of every graph and every listener, since
only two kinds of moves concern it, the substitutions and the steps of the cursor.

So the record of every line that has been read is a faithful edit script (`Graph.faithful_of_read`).
The translations of offsets are another matter.  An offset at the start of a replacement has the
whole difference of the lengths taken off, so the translation leads in front of the fragment, or
off the line, exactly if a replacement is longer (`Graph.staysOnLine_iff_of_read`).
-/
import CommandLine.Command.Read
import CommandLine.Proofs.Edits
import CommandLine.Proofs.Transparency

namespace CommandLine

open Text Edit

/-! ## The fragment under the cursor -/

/-- An expression that is resolved starts the text. -/
theorem Resolver.prefix_of_resolveExpression {r : Resolver} {strict : Bool} {index : Int}
    {c : Char} {rest fragment replacement : Text}
    (h : r.resolveExpression strict index (c :: rest) = .ok (some (fragment, replacement))) :
    fragment <+: c :: rest ∧ fragment ≠ [] := by
  obtain ⟨body, -, rfl, -⟩ := exists_body_of_resolveExpression h
  exact ⟨List.take_prefix _ _, List.cons_ne_nil _ _⟩

/-- A variable that is resolved starts the text, after its `$`. -/
theorem Resolver.prefix_of_resolveVariable {r : Resolver} {strict : Bool} {index : Int}
    {rest fragment replacement : Text}
    (h : r.resolveVariable strict index ('$' :: rest) = .ok (some (fragment, replacement))) :
    fragment <+: '$' :: rest ∧ fragment ≠ [] := by
  obtain ⟨table, name, -, hname, rfl, -⟩ := exists_name_of_resolveVariable h
  refine ⟨(List.prefix_cons_inj _).2 ?_, List.cons_ne_nil _ _⟩
  unfold variableName? at hname
  split at hname
  · cases hname
  · next c tail hdrop =>
    split at hname
    · cases hname
      rw [show rest = c :: tail from hdrop]
      exact List.takeWhile_prefix _
    · cases hname

namespace Context

variable {σ : Type} {c : Context σ} {fragment replacement : Text}

/-- What is replaced starts with a `$` under the cursor. -/
theorem prefix_of_resolveHere (h : c.resolveHere = .ok (some (fragment, replacement))) :
    (fragment <+: c.input.drop c.location ∧ fragment ≠ []) ∧
      ∃ rest, c.input.drop c.location = '$' :: rest := by
  unfold resolveHere at h
  split at h
  · next rest hdrop =>
    split at h
    · rw [hdrop]
      have hfound := Resolver.resolveExpression_of_resolveWithin h
      exact ⟨Resolver.prefix_of_resolveExpression hfound, _, rfl⟩
    · cases h
  · next next rest _ hdrop =>
    rw [hdrop]
    exact ⟨Resolver.prefix_of_resolveVariable (Resolver.ok_of_mapError h), _, rfl⟩
  · cases h

/-! ## The line up to the cursor -/

/-- Edits account for the line, and no `$` that they have brought in is left for the cursor. -/
structure Scripted (c : Context σ) (edits : List Edit) : Prop where
  edited : ∃ rest, c.line.Edited edits rest
  proper : ∀ e ∈ edits, e.fragment ≠ []
  behind : '$' ∉ (target edits).drop c.location

/-- The cursor stands behind the edits when it stands on a `$`. -/
theorem Scripted.le_location {edits : List Edit} {rest : Text} (h : c.Scripted edits)
    (hdrop : c.input.drop c.location = '$' :: rest) : (target edits).length ≤ c.location := by
  obtain ⟨shared, hedited⟩ := h.edited
  by_contra hlt
  refine h.behind ?_
  rw [input, hedited.substituted, List.drop_append_of_le_length (by omega)] at hdrop
  cases htarget : (target edits).drop c.location with
  | nil =>
    rw [List.drop_eq_nil_iff] at htarget
    omega
  | cons d tail =>
    rw [htarget] at hdrop
    cases hdrop
    exact List.mem_cons_self

/-- What is replaced under the cursor is a further edit. -/
theorem Scripted.substitute {edits : List Edit} (h : c.Scripted edits)
    (hfound : c.resolveHere = .ok (some (fragment, replacement))) (hplain : '$' ∉ replacement) :
    ∃ e : Edit, ({ c with line := c.line.substitute fragment replacement c.location } :
      Context σ).Scripted (edits ++ [e]) := by
  obtain ⟨⟨⟨after, hafter⟩, hne⟩, rest, hdollar⟩ := prefix_of_resolveHere hfound
  obtain ⟨shared, hedited⟩ := h.edited
  obtain ⟨gap, hgap⟩ := Nat.exists_eq_add_of_le (h.le_location hdollar)
  have hshared : shared.drop gap = fragment ++ after := by
    rw [hafter, input, hedited.substituted, hgap, ← List.drop_drop, List.drop_left]
  have hsplit : shared.take gap ++ fragment ++ after = shared := by
    rw [List.append_assoc, ← hshared, List.take_append_drop]
  have hlocation : c.location = (target edits ++ shared.take gap).length := by
    have hinput : c.location < c.input.length := by
      by_contra hle
      rw [List.drop_eq_nil_of_le (by omega)] at hdollar
      cases hdollar
    rw [input, hedited.substituted, List.length_append] at hinput
    rw [List.length_append, List.length_take]
    omega
  refine ⟨⟨shared.take gap, fragment, replacement⟩, ⟨after, ?_⟩, ?_, ?_⟩
  · show (c.line.substitute fragment replacement c.location).Edited _ after
    rw [← hsplit] at hedited
    rw [hlocation]
    exact hedited.substitute replacement
  · intro e he
    rcases List.mem_append.1 he with he | he
    · exact h.proper e he
    · rw [List.mem_singleton.1 he]
      exact hne
  · show '$' ∉ (target (edits ++ _)).drop c.location
    rw [target, List.flatMap_append, hlocation]
    simpa [Edit.after, ← List.append_assoc, target] using hplain

theorem Scripted.of_same_line {edits : List Edit} {d : Context σ} (h : c.Scripted edits)
    (hline : d.line = c.line) (hlocation : d.location = c.location) : d.Scripted edits where
  edited := by rw [hline]; exact h.edited
  proper := h.proper
  behind := by rw [hlocation]; exact h.behind

/-- A cursor that moves on leaves nothing behind. -/
theorem Scripted.advance {edits : List Edit} (h : c.Scripted edits) :
    ({ c with location := c.location + 1 } : Context σ).Scripted edits where
  edited := h.edited
  proper := h.proper
  behind := by
    intro hmem
    rw [← List.drop_drop] at hmem
    exact h.behind (List.mem_of_mem_drop hmem)

end Context

/-! ## Whole runs -/

section

variable {σ τ : Type} {G : Graph σ} {L : Listener σ τ} {s t : Session σ τ}

/-- The text was typed, and if no replacement holds a `$`, edits account for the line. -/
def Session.Scripted (text : Text) (s : Session σ τ) : Prop :=
  s.context.line.typed = text ∧
    ((∀ r ∈ s.context.line.substitutions, '$' ∉ r.replacement) →
      ∃ edits, s.context.Scripted edits)

theorem Session.Scripted.of_same_line {text : Text} (h : s.Scripted text)
    (hline : t.context.line = s.context.line)
    (hlocation : t.context.location = s.context.location) : t.Scripted text := by
  refine ⟨by rw [hline]; exact h.1, fun hplain => ?_⟩
  rw [hline] at hplain
  obtain ⟨edits, hedits⟩ := h.2 hplain
  exact ⟨edits, hedits.of_same_line hline hlocation⟩

/-- Each move keeps the script: a substitution adds an edit behind all others. -/
theorem Move.scripted {text : Text} (h : Move G L s t) (hs : s.Scripted text) :
    t.Scripted text := by
  cases h with
  | opened name room =>
    refine hs.of_same_line ?_ (Context.location_markValue _ _)
    rw [Context.markValue_eq]
  | closed popped =>
    refine hs.of_same_line ?_ (Context.location_unlockValue _)
    rw [Context.unlockValue_eq]
  | told signal => exact hs.of_same_line rfl rfl
  | remembered e lenient => exact hs.of_same_line rfl rfl
  | configured escapes expressions => exact hs.of_same_line rfl rfl
  | substituted found =>
    refine ⟨hs.1, fun hplain => ?_⟩
    rw [show Line.substitutions _ = s.context.line.substitutions ++ [_] from rfl,
      List.forall_mem_append] at hplain
    obtain ⟨edits, hedits⟩ := hs.2 hplain.1
    obtain ⟨e, he⟩ := hedits.substitute found (hplain.2 _ List.mem_cons_self)
    exact ⟨_, he⟩
  | advanced hend =>
    refine ⟨hs.1, fun hplain => ?_⟩
    obtain ⟨edits, hedits⟩ := hs.2 hplain
    exact ⟨edits, hedits.advance⟩

theorem Moves.scripted {text : Text} (h : Moves G L s t) (hs : s.Scripted text) :
    t.Scripted text :=
  h.induct (P := fun u => u.Scripted text) (fun m hu => m.scripted hu) hs

theorem Session.scripted_start (settings : Settings) (strict : Bool) (text : Text)
    (gathered : τ) : (Session.start (σ := σ) settings strict text gathered).Scripted text :=
  ⟨rfl, fun _ => ⟨[], ⟨text, Line.Edited.ofText text⟩, nofun, List.not_mem_nil⟩⟩

namespace Graph

variable {settings : Settings} {strict : Bool} {initial : σ} {line : Option Text}
  {gathered g : τ} {r : Result}

/-- Edits account for every line that has been read. -/
theorem edited_of_read (h : G.read settings strict L initial line gathered = (g, .ok r))
    (hplain : ∀ s ∈ r.line.substitutions, '$' ∉ s.replacement) :
    r.line.typed = line.getD [] ∧
      ∃ edits rest, r.line.Edited edits rest ∧ ∀ e ∈ edits, e.fragment ≠ [] := by
  unfold read at h
  dsimp only at h
  split at h
  · cases h
    exact ⟨rfl, [], _, Line.Edited.ofText _, nofun⟩
  · unfold readText at h
    split at h
    · next u hrun =>
      cases h
      have hmoves := Machine.Follows.readFrom (G := G) (L := L) initial
        (positionLimit settings (line.getD []))
        (Session.start settings strict (line.getD []) gathered)
      rw [Machine.after_of_ok hrun] at hmoves
      obtain ⟨htyped, hscripted⟩ := hmoves.scripted (Session.scripted_start ..)
      obtain ⟨edits, hedits⟩ := hscripted hplain
      obtain ⟨rest, hedited⟩ := hedits.edited
      exact ⟨htyped, edits, rest, hedited, hedits.proper⟩
    · cases h

/-- The record of substitutions is a faithful edit script of the line that was read, unless a
replacement brought in a new `$`. -/
theorem faithful_of_read (h : G.read settings strict L initial line gathered = (g, .ok r))
    (hplain : ∀ s ∈ r.line.substitutions, '$' ∉ s.replacement) :
    r.line.typed = line.getD [] ∧ r.line.Faithful := by
  obtain ⟨htyped, edits, rest, hedited, hproper⟩ := edited_of_read h hplain
  exact ⟨htyped, hedited.faithful hproper⟩

/-- In `$e$x=$y` an empty replacement exposes the next variable, and two fragments are put in at
one place. -/
theorem faithful_of_read_of_adjacent :
    Line.Faithful ⟨['$', 'e', '$', 'x', '=', '$', 'y'], ['a', 'b', 'c', '=', 'd'],
      [⟨['$', 'e'], [], 0, 0⟩, ⟨['$', 'x'], ['a', 'b', 'c'], 0, 2⟩, ⟨['$', 'y'], ['d'], 4, 5⟩]⟩ := by
  have hrun : grammar.read
      { resolver :=
          { variableValues := some [(['e'], []), (['x'], ['a', 'b', 'c']), (['y'], ['d'])] } }
      true Listener.silent .argumentList (some ['$', 'e', '$', 'x', '=', '$', 'y']) () =
      ((), .ok { line := ⟨['$', 'e', '$', 'x', '=', '$', 'y'], ['a', 'b', 'c', '=', 'd'],
        [⟨['$', 'e'], [], 0, 0⟩, ⟨['$', 'x'], ['a', 'b', 'c'], 0, 2⟩, ⟨['$', 'y'], ['d'], 4, 5⟩]⟩ }) :=
    by decide +kernel
  exact (faithful_of_read hrun (by decide)).2

/-- The translations of offsets stay on the line exactly as far as nothing is put in place of
something shorter: the translation back needs replacements that are not longer than their
fragments, and the translation forth needs replacements that are not shorter. -/
theorem staysOnLine_iff_of_read
    (h : G.read settings strict L initial line gathered = (g, .ok r))
    (hplain : ∀ s ∈ r.line.substitutions, '$' ∉ s.replacement) :
    (StaysOnLine r.line.typedOffset r.line.substitutions r.line.substituted r.line.typed ↔
        ∀ s ∈ r.line.substitutions, s.replacement.length ≤ s.fragment.length) ∧
      (StaysOnLine r.line.substitutedOffset (r.line.substitutions.map Substitution.inverse)
          r.line.typed r.line.substituted ↔
        ∀ s ∈ r.line.substitutions, s.fragment.length ≤ s.replacement.length) := by
  obtain ⟨_, edits, rest, hedited, _⟩ := edited_of_read h hplain
  exact ⟨hedited.staysOnLine_iff, hedited.staysOnLine_inverse_iff⟩

/-- In `a$x` a long value of `x` spoils the translation back, and only that one. -/
theorem staysOnLine_iff_of_read_of_longer :
    ¬ StaysOnLine (Line.typedOffset ⟨['a', '$', 'x'], ['a', 'b', 'c', 'd', 'e', 'f', 'g'],
        [⟨['$', 'x'], ['b', 'c', 'd', 'e', 'f', 'g'], 1, 1⟩]⟩)
        [⟨['$', 'x'], ['b', 'c', 'd', 'e', 'f', 'g'], 1, 1⟩]
        ['a', 'b', 'c', 'd', 'e', 'f', 'g'] ['a', '$', 'x'] ∧
      StaysOnLine (Line.substitutedOffset ⟨['a', '$', 'x'], ['a', 'b', 'c', 'd', 'e', 'f', 'g'],
        [⟨['$', 'x'], ['b', 'c', 'd', 'e', 'f', 'g'], 1, 1⟩]⟩)
        [⟨['b', 'c', 'd', 'e', 'f', 'g'], ['$', 'x'], 1, 1⟩]
        ['a', '$', 'x'] ['a', 'b', 'c', 'd', 'e', 'f', 'g'] := by
  have hrun : grammar.read (.ofVariable ['x'] ['b', 'c', 'd', 'e', 'f', 'g']) true
      Listener.silent .argumentList (some ['a', '$', 'x']) () =
      ((), .ok { line := ⟨['a', '$', 'x'], ['a', 'b', 'c', 'd', 'e', 'f', 'g'],
        [⟨['$', 'x'], ['b', 'c', 'd', 'e', 'f', 'g'], 1, 1⟩]⟩ }) := by decide +kernel
  have h := staysOnLine_iff_of_read hrun (by decide)
  exact ⟨fun hback => absurd (h.1.1 hback) (by decide), h.2.2 (by decide)⟩

/-- Where `x` is empty, the line `$x` becomes the empty line, and its start is translated to two
places before the start of that. -/
theorem not_staysOnLine_of_read_of_empty :
    (grammar.read (.ofVariable ['x'] []) true Listener.silent .argumentList (some ['$', 'x'])
        ()).2 = .ok { line := ⟨['$', 'x'], [], [⟨['$', 'x'], [], 0, 0⟩]⟩ } ∧
      (Line.mk ['$', 'x'] [] [⟨['$', 'x'], [], 0, 0⟩]).substitutedOffset 0 = -2 ∧
      ¬ StaysOnLine (Line.mk ['$', 'x'] [] [⟨['$', 'x'], [], 0, 0⟩]).substitutedOffset
        [⟨[], ['$', 'x'], 0, 0⟩] ['$', 'x'] [] := by
  refine ⟨by decide +kernel, by decide, fun h => absurd (h.within 0 (Nat.zero_le _)).1 ?_⟩
  decide

end Graph
end
end CommandLine
