/-
# `CommandLine.Proofs.Continuation` — a line to which more is typed

While a line is typed it is read again and again, each time with more text at its end.  What has
been found in the old text must not change with the new one, and it does not, as far as the old
text goes.  Two readings, of a text and of a text that continues it, do the same as long as the
cursor stands in the first one:

    the character under the cursor     is the same                  (`seesAlike_append`)
    a look around a separator          ends at a character that is no gap, and the last
                                       character of the text is one (`foresees_append`)

Where the first reading leaves the text, at the end or by an error, the signals of both have been
the same, and all later ones are given behind the text (`Moves.before_eq`).
-/
import CommandLine.Proofs.Transparency
import Mathlib.Data.List.TakeWhile

namespace CommandLine

open Text

/-! ## Traces -/

/-- The entries of a trace for signals that were given before an offset of the line. -/
def Listener.before {σ : Type} (offset : Nat) (trace : Array (Entry σ)) : List (Entry σ) :=
  trace.toList.filter fun e => e.location < offset

/-- The trace of reading a text. -/
def Graph.trace {σ τ : Type} (G : Graph σ) (settings : Settings) (strict : Bool)
    (L : Listener σ τ) (initial : σ) (text : Text) (gathered : τ) : Array (Entry σ) :=
  (G.read settings strict (Listener.recording L) initial (some text) (#[], gathered)).1.1

open Listener

section

variable {σ τ : Type} {G : Graph σ} {L : Listener σ τ} {offset : Nat}
  {s t : Session σ (Array (Entry σ) × τ)}

/-- A cursor that has passed an offset stays behind it, and so do the signals. -/
theorem Move.before_eq (h : Move G (recording L) s t) (hs : offset ≤ s.context.location) :
    offset ≤ t.context.location ∧ before offset t.gathered.1 = before offset s.gathered.1 := by
  cases h with
  | opened name room =>
    rw [Context.location_markValue]
    exact ⟨hs, rfl⟩
  | closed popped =>
    rw [Context.location_unlockValue]
    exact ⟨hs, rfl⟩
  | told signal =>
    refine ⟨hs, ?_⟩
    have hlate : ¬ (Entry.of signal s.context).location < offset := Nat.not_lt_of_le hs
    show (s.gathered.1.push (Entry.of signal s.context)).toList.filter _ = _
    rw [Array.toList_push, List.filter_append, List.filter_cons_of_neg (by simpa using hlate),
      List.filter_nil, List.append_nil]
    rfl
  | advanced inside => exact ⟨Nat.le_succ_of_le hs, rfl⟩
  | _ => exact ⟨hs, rfl⟩

theorem Moves.before_eq (h : Moves G (recording L) s t) (hs : offset ≤ s.context.location) :
    before offset t.gathered.1 = before offset s.gathered.1 := by
  refine (h.induct (P := fun u => offset ≤ u.context.location ∧
    before offset u.gathered.1 = before offset s.gathered.1) (fun m hu => ?_) ⟨hs, rfl⟩).2
  obtain ⟨hlocation, hbefore⟩ := m.before_eq hu.1
  exact ⟨hlocation, hbefore.trans hu.2⟩

end

/-! ## The text under the cursor and around it -/

namespace Context

variable {c : Context StateName} {t u : Text} {F : Footing}

/-- The continued line shows the same character. -/
theorem seesAlike_append (hinput : c.input = t) (hline : F.line = Line.ofText (t ++ u))
    (hinside : c.location < t.length) : c.SeesAlike F := by
  show F.line.substituted[c.location]? = c.input[c.location]?
  rw [hline, hinput]
  exact List.getElem?_append_left hinside

/-- From any place before the last character of the text a look ends within the text. -/
theorem nextSolid?_append (hinput : c.input = t) (hlast : t.getLast?.any isGap = false)
    (hinside : c.location + 1 < t.length) :
    { c with line := Line.ofText (t ++ u) }.nextSolid? = c.nextSolid? := by
  have hsolid : (t.drop (c.location + 1)).dropWhile isGap ≠ [] := by
    intro hnil
    have hall := List.dropWhile_eq_nil_iff.1 hnil
    cases hd : t.getLast? with
    | none =>
      rw [List.getLast?_eq_none_iff.1 hd] at hinside
      cases hinside
    | some d =>
      have hmem : d ∈ t.drop (c.location + 1) := by
        refine List.mem_of_getLast? ?_
        rw [List.getLast?_drop, if_neg (Nat.not_le_of_lt hinside), hd]
      rw [hd] at hlast
      exact absurd (hall d hmem) (ne_true_of_eq_false hlast)
  show (((t ++ u).drop (c.location + 1)).dropWhile isGap).head? =
    ((c.input.drop (c.location + 1)).dropWhile isGap).head?
  rw [hinput, List.drop_append_of_le_length (Nat.le_of_lt hinside), List.dropWhile_append,
    if_neg (by simpa using hsolid)]
  obtain ⟨d, rest, hrest⟩ := List.exists_cons_of_ne_nil hsolid
  rw [hrest]
  rfl

/-- The text before the cursor is that of the continued line. -/
theorem lastSolid?_append (hinput : c.input = t) (hinside : c.location ≤ t.length) :
    { c with line := Line.ofText (t ++ u) }.lastSolid? = c.lastSolid? := by
  show (((t ++ u).take c.location).reverse.dropWhile isGap).head? =
    ((c.input.take c.location).reverse.dropWhile isGap).head?
  rw [hinput, List.take_append_of_le_length hinside]

/-- A look that is taken in the text gives the answer that it gives on the continued line: the
last character is no gap, and on any other character nobody looks. -/
theorem foresees_append (hinput : c.input = t) (hlast : t.getLast?.any isGap = false)
    (hinside : c.location < t.length) : c.foresees (t ++ u) = true := by
  cases hgap : isGap t[c.location] with
  | true =>
    have hbefore : c.location + 1 < t.length := by
      refine Nat.lt_of_le_of_ne hinside ?_
      intro hend
      have hget : t.getLast? = some t[c.location] := by
        rw [List.getLast?_eq_getElem?, ← hend, Nat.add_sub_cancel]
        exact List.getElem?_eq_getElem hinside
      rw [hget] at hlast
      exact absurd hgap (ne_true_of_eq_false hlast)
    have hlooks : ∀ following preceding : Text,
        { c with line := Line.ofText (t ++ u) }.isBesideSeparator following preceding =
          c.isBesideSeparator following preceding := by
      intro following preceding
      rw [isBesideSeparator, isBesideSeparator, nextSolid?_append hinput hlast hbefore,
        lastSolid?_append hinput (Nat.le_of_lt hinside)]
    unfold foresees
    split
    · rfl
    · split
      · rw [hlooks]
        exact beq_self_eq_true _
      · rfl
  | false =>
    refine foresees_of_isSightless _ ?_
    intro f _
    have hcharacter : c.character = [t[c.location]] := by
      rw [character, character?, hinput, List.getElem?_eq_getElem hinside]
      rfl
    rw [hcharacter]
    refine isSightless_actionFor f.state ?_
    intro hcontra
    exact absurd hcontra (ne_true_of_eq_false hgap)

end Context

/-! ## Two readings -/

namespace Machine

section

variable {σ τ : Type} {G : Graph σ} {L : Listener σ τ} {s t : Session σ τ} {limit : Nat}

/-- The rest of a run: the walk along the line, and the end of it. -/
def travel (G : Graph σ) (L : Listener σ τ) (limit : Nat) : Machine σ τ Unit := do
  walk G L limit
  finish G L

theorem Follows.travel (limit : Nat) : Follows G L (travel G L limit) :=
  (Follows.walk limit).bind fun _ => .finish

theorem travel_of_ok (hplain : s.context.settings.substitutes = false)
    (hinside : s.context.atEnd = false) (h : handle G L s = .ok () t) :
    travel G L (limit + 1) s = travel G L limit t := by
  have hwalk : walk G L (limit + 1) s = walk G L limit t := by
    rw [walk_succ_of_prepare hinside (prepare_of_plain hplain) hinside, bind_apply_of_ok h]
  unfold travel
  cases hrest : walk G L limit t with
  | ok a u => rw [bind_apply_of_ok (hwalk.trans hrest), bind_apply_of_ok hrest]
  | error fault u => rw [bind_apply_of_error (hwalk.trans hrest), bind_apply_of_error hrest]

theorem travel_of_error {fault : Fault} (hplain : s.context.settings.substitutes = false)
    (hinside : s.context.atEnd = false) (h : handle G L s = .error fault t) :
    travel G L (limit + 1) s = .error fault t := by
  refine bind_apply_of_error ?_ _
  rw [walk_succ_of_prepare hinside (prepare_of_plain hplain) hinside, bind_apply_of_error h]

end

section

variable {τ : Type} {L : Listener StateName τ} {t u : Text} {settings : Settings} {strict : Bool}
  {s : Session StateName (Array (Entry StateName) × τ)}
  (hL : L.IsLocal) (hplain : settings.substitutes = false)
  (hlast : t.getLast?.any isGap = false)
include hL hplain hlast

/-- From any place in the text on, the signals of both readings are the same as far as the text
goes, whatever room is left for either of them. -/
theorem before_travel {limit room : Nat}
    (hfooting : s.context.footing = ⟨settings, strict, Line.ofText t⟩)
    (hlimit : t.length ≤ s.context.location + limit)
    (hroom : t.length ≤ s.context.location + room) :
    before t.length (after (travel grammar (recording L) room)
        (s.via fun _ => ⟨settings, strict, Line.ofText (t ++ u)⟩)).gathered.1 =
      before t.length (after (travel grammar (recording L) limit) s).gathered.1 := by
  induction limit generalizing s room with
  | zero =>
    have hpassed : t.length ≤ s.context.location := hlimit
    have hfirst := (Follows.travel (G := grammar) (L := recording L) 0 s).before_eq hpassed
    have hsecond := (Follows.travel (G := grammar) (L := recording L) room
      (s.via fun _ => ⟨settings, strict, Line.ofText (t ++ u)⟩)).before_eq hpassed
    exact hsecond.trans hfirst.symm
  | succ limit ih =>
    rcases Nat.lt_or_ge s.context.location t.length with hinside | hpassed
    · obtain ⟨room, rfl⟩ : ∃ rest, room = rest + 1 := ⟨room - 1, by omega⟩
      have hinput : s.context.input = t := congrArg (fun f => f.line.substituted) hfooting
      have hsettings : s.context.settings.substitutes = false := by
        rw [show s.context.settings = settings from congrArg Footing.settings hfooting]
        exact hplain
      have hend : s.context.atEnd = false := by
        rw [Context.atEnd, hinput, decide_eq_false_iff_not]
        exact Nat.not_le_of_lt hinside
      have halike : s.context.SeesAlike ⟨settings, strict, Line.ofText (t ++ u)⟩ :=
        Context.seesAlike_append hinput rfl hinside
      have hvia := handle_via (isLocal_recording hL)
        (F := ⟨settings, strict, Line.ofText (t ++ u)⟩) rfl
        (congrArg Footing.strict hfooting).symm halike
        (Context.foresees_append hinput hlast hinside) hend
      have hviaend : (s.via fun _ => ⟨settings, strict, Line.ofText (t ++ u)⟩).context.atEnd =
          false := halike.atEnd.trans hend
      cases hhandle : handle grammar (recording L) s with
      | error fault v =>
        rw [hhandle] at hvia
        rw [after_of_error (travel_of_error hsettings hend hhandle),
          after_of_error (travel_of_error hplain hviaend hvia)]
        rfl
      | ok a v =>
        rw [hhandle] at hvia
        obtain ⟨hvfooting, hvlocation⟩ := after_handle (isLocal_recording hL) hhandle
        rw [after, after, travel_of_ok hsettings hend hhandle, travel_of_ok hplain hviaend hvia]
        exact ih (hvfooting.trans hfooting) (by omega) (by omega)
    · have hfirst := (Follows.travel (G := grammar) (L := recording L) (limit + 1) s).before_eq
        hpassed
      have hsecond := (Follows.travel (G := grammar) (L := recording L) room
        (s.via fun _ => ⟨settings, strict, Line.ofText (t ++ u)⟩)).before_eq hpassed
      exact hsecond.trans hfirst.symm

omit hplain hlast in
/-- Both readings enter their first state alike. -/
theorem enter_append {b : StateName} (hroot : b.isRoot = true)
    (hfooting : s.context.footing = ⟨settings, strict, Line.ofText t⟩)
    (hinside : s.context.location < t.length) :
    enter grammar (recording L) b (s.via fun _ => ⟨settings, strict, Line.ofText (t ++ u)⟩) =
      carry (fun _ => ⟨settings, strict, Line.ofText (t ++ u)⟩)
        (enter grammar (recording L) b s) := by
  have hinput : s.context.input = t := congrArg (fun f => f.line.substituted) hfooting
  have hstrict : strict = s.context.strict := (congrArg Footing.strict hfooting).symm
  have concord := concord_moment (K := fun a => a.isCalm = true)
    (F := ⟨settings, strict, Line.ofText (t ++ u)⟩) hstrict
    (Context.seesAlike_append hinput rfl hinside) (fun h => absurd h Bool.false_ne_true)
    isCalm_of_setsOff fun _ h => absurd h Bool.false_ne_true
  have hfirst : (grammar b).onEnter.isCalm = true := by
    rw [onEnter_of_isRoot hroot]
    rfl
  exact (Tandem.enter concord (isLocal_recording hL) hfirst).same_of_strict
    (strict_of_moment hstrict) ⟨rfl, rfl⟩

/-- The signals of two runs are the same as far as the text goes. -/
theorem before_readFrom {b : StateName} (hroot : b.isRoot = true) {limit room : Nat}
    (hfooting : s.context.footing = ⟨settings, strict, Line.ofText t⟩)
    (hinside : s.context.location < t.length) (hlimit : t.length ≤ limit)
    (hroom : t.length ≤ room) :
    before t.length (after (readFrom grammar (recording L) b room)
        (s.via fun _ => ⟨settings, strict, Line.ofText (t ++ u)⟩)).gathered.1 =
      before t.length (after (readFrom grammar (recording L) b limit) s).gathered.1 := by
  have hvia := enter_append (u := u) hL hroot hfooting hinside
  cases henter : enter grammar (recording L) b s with
  | error fault v =>
    rw [henter] at hvia
    have hfirst : readFrom grammar (recording L) b limit s = .error fault v :=
      bind_apply_of_error henter _
    have hsecond : readFrom grammar (recording L) b room
        (s.via fun _ => ⟨settings, strict, Line.ofText (t ++ u)⟩) =
          .error fault (v.via fun _ => ⟨settings, strict, Line.ofText (t ++ u)⟩) :=
      bind_apply_of_error hvia _
    rw [after_of_error hfirst, after_of_error hsecond]
    rfl
  | ok a v =>
    rw [henter] at hvia
    obtain ⟨hvfooting, hvlocation⟩ := within_of_enter (isLocal_recording hL) henter
    have hfirst : readFrom grammar (recording L) b limit s =
        travel grammar (recording L) limit v := bind_apply_of_ok henter _
    have hsecond : readFrom grammar (recording L) b room
        (s.via fun _ => ⟨settings, strict, Line.ofText (t ++ u)⟩) =
          travel grammar (recording L) room
            (v.via fun _ => ⟨settings, strict, Line.ofText (t ++ u)⟩) :=
      bind_apply_of_ok hvia _
    rw [after, after, hfirst, hsecond]
    exact before_travel hL hplain hlast (hvfooting.trans hfooting) (by omega) (by omega)

end
end Machine

/-! ## Typing more -/

open Machine

/-- The trace of a line that is not blank is what its run leaves behind. -/
theorem Graph.trace_eq {σ τ : Type} {G : Graph σ} {L : Listener σ τ} {settings : Settings}
    {strict : Bool} {initial : σ} {text : Text} {gathered : τ}
    (hsolid : isBlankText text = false) :
    G.trace settings strict L initial text gathered =
      (after (readFrom G (recording L) initial (positionLimit settings text))
        (Session.start settings strict text (#[], gathered))).gathered.1 := by
  unfold trace
  rw [read_of_not_isBlankText hsolid, readText]
  cases hrun : readFrom G (recording L) initial (positionLimit settings text)
      (Session.start settings strict text (#[], gathered)) with
  | ok a s => rw [after_of_ok hrun]
  | error fault s => rw [after_of_error hrun]

section

variable {τ : Type} {L : Listener StateName τ}

/-- A text that continues another one is read as that, as far as it goes. -/
theorem before_trace (hL : L.IsLocal) {b : StateName} (hroot : b.isRoot = true)
    {settings : Settings} (hplain : settings.substitutes = false) (strict : Bool) {t : Text}
    (u : Text) (gathered : τ) (hsolid : isBlankText t = false)
    (hlast : t.getLast?.any isGap = false) :
    before t.length (grammar.trace settings strict L b (t ++ u) gathered) =
      before t.length (grammar.trace settings strict L b t gathered) := by
  have hsolid' : isBlankText (t ++ u) = false := by
    rw [isBlankText, List.all_append, ← isBlankText, hsolid, Bool.false_and]
  have hinside : 0 < t.length := by
    refine List.length_pos_iff.2 ?_
    rintro rfl
    cases hsolid
  have hroom : t.length ≤ positionLimit settings (t ++ u) := by
    refine Nat.le_trans ?_ (length_le_positionLimit settings (t ++ u))
    rw [List.length_append]
    exact Nat.le_add_right _ _
  rw [Graph.trace_eq hsolid, Graph.trace_eq hsolid']
  exact before_readFrom hL hplain hlast hroot
    (s := Session.start settings strict t (#[], gathered)) rfl hinside
    (length_le_positionLimit settings t) hroom

end

/-- Typing more never changes what has been read already.  For a text that is not blank and does
not end in a gap, the signals that are given in it are the same, and given in the same states of
the run, when the line goes on with any other text: for every reader of command lines, for the
reader of values and for the plain signals of every state that a line is read from. -/
theorem continuation_keeps_events (settings : Settings) (hplain : settings.substitutes = false)
    (strict : Bool) (t u : Text) (hsolid : isBlankText t = false)
    (hlast : t.getLast?.any isGap = false) :
    (∀ {η : Type} (handler : Handler η) (entrance : Entrance) (reader : Reader) (gathered : η),
      before t.length (grammar.trace settings strict (Reader.listener handler) entrance.state
          (t ++ u) (reader, gathered)) =
        before t.length (grammar.trace settings strict (Reader.listener handler) entrance.state t
          (reader, gathered))) ∧
    before t.length (grammar.trace settings strict Value.Builder.listener .value (t ++ u) {}) =
      before t.length (grammar.trace settings strict Value.Builder.listener .value t {}) ∧
    ∀ b : StateName, b.isRoot = true →
      before t.length (grammar.trace settings strict silent b (t ++ u) ()) =
        before t.length (grammar.trace settings strict silent b t ()) := by
  refine ⟨?_, ?_, ?_⟩
  · intro η handler entrance reader gathered
    exact before_trace (Reader.isLocal_listener handler) entrance.isRoot_state hplain strict u _
      hsolid hlast
  · exact before_trace Value.Builder.isLocal_listener rfl hplain strict u {} hsolid hlast
  · intro b hroot
    exact before_trace (fun _ _ _ _ _ => rfl) hroot hplain strict u () hsolid hlast

/-- The parenthesis in `/a:op(` is entered as a property list, whether or not `x)` follows. -/
theorem continuation_keeps_events_of_open_list :
    Settings.substitutes {} = false ∧ isBlankText ['/', 'a', ':', 'o', 'p', '('] = false ∧
      (['/', 'a', ':', 'o', 'p', '('] : Text).getLast?.any isGap = false ∧
      (before 6 (grammar.trace {} true silent .command ['/', 'a', ':', 'o', 'p', '('] ())).map
          Entry.signal =
        [.entered .command, .entered .address, .entered .nodeSeparator, .leaving .nodeSeparator,
          .entered .node, .content, .leaving .node, .entered .operationSeparator,
          .entered .operationName, .content, .content, .leaving .operationName,
          .leaving .operationSeparator, .entered .propertyList] ∧
      before 6 (grammar.trace {} true silent .command
          (['/', 'a', ':', 'o', 'p', '('] ++ ['x', ')']) ()) =
        before 6 (grammar.trace {} true silent .command ['/', 'a', ':', 'o', 'p', '('] ()) := by
  have hsolid : isBlankText ['/', 'a', ':', 'o', 'p', '('] = false := by decide
  have hlast : (['/', 'a', ':', 'o', 'p', '('] : Text).getLast?.any isGap = false := by decide
  refine ⟨rfl, hsolid, hlast, by decide +kernel, ?_⟩
  exact (continuation_keeps_events {} rfl true ['/', 'a', ':', 'o', 'p', '('] ['x', ')'] hsolid
    hlast).2.2 .command rfl

end CommandLine
