/-
# `CommandLine.Proofs.TypedText` — what is kept of a value that is being typed

Completion looks at the content of a value that is being typed.  What belongs to it can be told by
one scan of the text, which remembers the quote that is open and whether a backslash takes the next
character (`Scan`):

    a blank text              nothing of it is kept
    the gaps at the start     are dropped
    a quote                   is dropped if it opens a quoted part or closes the one it opened
    every other character     is kept, backslashes and what they take included

The run of the grammar mirrors the scan: `Scan.active` gives the states that are active after it.
-/
import CommandLine.Proofs.Scenes
import CommandLine.Proofs.Strictness

namespace CommandLine.TypedValue

open Text

/-! ## Scanning a text -/

/-- The quotes that open and close a part of a value. -/
inductive Quote where
  /-- The double quote. -/
  | double
  /-- The back quote. -/
  | back

namespace Quote

/-- The character of a quote. -/
def character : Quote → Char
  | double => '"'
  | back => '\x60'

/-- The quote that a character is. -/
def of? (c : Char) : Option Quote :=
  if c = '"' then some double else if c = '\x60' then some back else none

/-- The state of the part that a quote opens. -/
def state : Quote → StateName
  | double => .typedQuotes
  | back => .typedBackQuotes

end Quote

/-- How far a text has been scanned. -/
structure Scan where
  /-- The quote that has opened a part and not closed it. -/
  opened : Option Quote := none
  /-- A backslash takes the next character. -/
  escaped : Bool := false

namespace Scan

/-- The character opens or closes a quoted part. -/
def delimits (s : Scan) (c : Char) : Bool :=
  !s.escaped &&
    match s.opened with
    | none => (Quote.of? c).isSome
    | some quote => c == quote.character

/-- The scan after a character. -/
def after (s : Scan) (c : Char) : Scan :=
  if s.escaped then { s with escaped := false }
  else if s.delimits c then { s with opened := if s.opened.isSome then none else Quote.of? c }
  else { s with escaped := c == '\\' }

/-- The characters of a text, each with whether it is dropped. -/
def marks (s : Scan) : Text → List (Char × Bool)
  | [] => []
  | c :: rest => (c, s.delimits c) :: (s.after c).marks rest

/-- The states that are active after a scan. -/
def active (s : Scan) : List StateName :=
  (if s.escaped then [.escape] else []) ++
    ((s.opened.map Quote.state).toList ++ [.typedValue, .typedStart])

end Scan

/-- The characters of a text that is being typed, each with whether it is dropped. -/
def marks (text : Text) : List (Char × Bool) :=
  if isBlankText text then text.map (·, true)
  else (text.takeWhile isGap).map (·, true) ++ ({} : Scan).marks (text.dropWhile isGap)

/-- The characters that are not dropped. -/
def kept (marked : List (Char × Bool)) : Text := (marked.filter fun mark => !mark.2).map Prod.fst

/-! ## The run -/

local instance : Placed Text := ⟨fun _ => none⟩

/-- What a signal does to the content. -/
def react (p : Spot) : Reaction StateName Text := fun signal _ content =>
  match signal with
  | .content => some (content ++ p.character?.toList)
  | _ => some content

/-- The content develops as the reaction says. -/
theorem sketches : listener.SketchedBy grammar id react where
  accepted signal g h _ := by
    cases signal with
    | content =>
      show some (g ++ _) = some (g ++ Context.character _)
      rw [Context.character, h.character?]
    | _ => rfl
  refused signal g _ hverdict := by
    cases signal <;> exact absurd rfl hverdict
  place _ := rfl

section

variable {p : Spot} {d : Char} {content : Text} {n : Nat}

theorem react_content {active : List StateName} (hd : p.character? = some d) :
    react p .content active content = some (content ++ [d]) := by
  show some (content ++ p.character?.toList) = _
  rw [hd]
  rfl

/-- A backslash is kept, and the state after it waits for a character. -/
theorem act_backslash {x : StateName} {outer : List StateName}
    (hescapes : grammar.escapesIn (x :: outer) = true) (hroom : (x :: outer).length < p.maxDepth)
    (hd : p.character? = some d) :
    Scene.actUpTo grammar react p (n + 2) (.escape .escape) ⟨x :: outer, content⟩ =
      some ⟨.escape :: x :: outer, content ++ [d]⟩ := by
  rw [Scene.act_escape hescapes, Scene.act_enter hroom rfl]
  exact Scene.act_content (react_content hd)

/-- A quote that opens a part is dropped. -/
theorem act_opening {x : StateName} {outer : List StateName} (quote : Quote)
    (hroom : (x :: outer).length < p.maxDepth) :
    Scene.actUpTo grammar react p (n + 2) (.enter quote.state) ⟨x :: outer, content⟩ =
      some ⟨quote.state :: x :: outer, content⟩ := by
  rw [Scene.act_enter hroom rfl]
  cases quote <;> rfl

/-- What a character does in the value, outside quotes. -/
theorem act_value (hroom : 3 ≤ p.maxDepth) (hd : p.character? = some d) :
    Scene.actUpTo grammar react p (n + 2) ((grammar .typedValue).actionFor [d])
        ⟨({} : Scan).active, content⟩ =
      some ⟨(({} : Scan).after d).active,
        if ({} : Scan).delimits d then content else content ++ [d]⟩ := by
  by_cases hdouble : d = '"'
  · subst hdouble
    exact act_opening .double hroom
  by_cases hback : d = '\x60'
  · subst hback
    exact act_opening .back hroom
  by_cases hbackslash : d = '\\'
  · subst hbackslash
    exact act_backslash rfl hroom hd
  have hkeys : (grammar .typedValue).transitions.all
      (fun t => t.1.all ['"', '\x60', '\\'].contains) = true := rfl
  have haction : (grammar .typedValue).actionFor [d] = .content :=
    actionFor_eq_content hkeys rfl (by simp [hdouble, hback, hbackslash]) fun _ => rfl
  have hplain : (d == '\\') = false := by simpa using hbackslash
  rw [haction, Scene.act_content (react_content hd)]
  simp [Scan.after, Scan.delimits, Quote.of?, hdouble, hback, hplain]

/-- What a character does in a quoted part. -/
theorem act_quoted (quote : Quote) (hroom : 4 ≤ p.maxDepth) (hd : p.character? = some d) :
    Scene.actUpTo grammar react p (n + 2) ((grammar quote.state).actionFor [d])
        ⟨({ opened := some quote } : Scan).active, content⟩ =
      some ⟨(({ opened := some quote } : Scan).after d).active,
        if ({ opened := some quote } : Scan).delimits d then content else content ++ [d]⟩ := by
  by_cases hclosing : d = quote.character
  · subst hclosing
    have haction : (grammar quote.state).actionFor [quote.character] = .leave := by
      cases quote <;> rfl
    rw [haction]
    cases quote <;> exact Scene.act_leave rfl
  by_cases hbackslash : d = '\\'
  · subst hbackslash
    cases quote <;> exact act_backslash rfl hroom hd
  have hkeys : (grammar quote.state).transitions.all
      (fun t => t.1.all [quote.character, '\\'].contains) = true := by cases quote <;> rfl
  have haction : (grammar quote.state).actionFor [d] = .content :=
    actionFor_eq_content hkeys (by cases quote <;> rfl) (by simp [hclosing, hbackslash])
      fun _ => by cases quote <;> rfl
  have hplain : (d == '\\') = false := by simpa using hbackslash
  rw [haction, Scene.act_content (react_content hd)]
  simp [Scan.after, Scan.delimits, hclosing, hplain]

/-- A character after a backslash is kept. -/
theorem act_escaped (opened : Option Quote) (hd : p.character? = some d) :
    Scene.actUpTo grammar react p (n + 2) ((grammar .escape).actionFor [d])
        ⟨(Scan.mk opened true).active, content⟩ =
      some ⟨(Scan.mk opened false).active, content ++ [d]⟩ := by
  have haction : (grammar .escape).actionFor [d] = .contentAndLeave := by
    rw [State.actionFor_singleton]
    exact ite_self _
  have hcontent {active : List StateName} : react p .content active content =
      some (content ++ [d]) := react_content hd
  rw [haction]
  rcases opened with - | - | -
  all_goals exact (Scene.act_contentAndLeave hcontent).trans (Scene.act_leave rfl)

/-- A character does to the run what it does to the scan. -/
theorem handle_scan (s : Scan) (hroom : 4 ≤ p.maxDepth) (hd : p.character? = some d) :
    Scene.handle grammar react p ⟨s.active, content⟩ =
      some ⟨(s.after d).active, if s.delimits d then content else content ++ [d]⟩ := by
  obtain ⟨opened, escaped⟩ := s
  cases escaped with
  | true => exact (Scene.handle_cons hd).trans (act_escaped opened hd)
  | false =>
    cases opened with
    | none => exact (Scene.handle_cons hd).trans (act_value (by omega) hd)
    | some quote => exact (Scene.handle_cons hd).trans (act_quoted quote hroom hd)

/-- The first character that is no gap starts the value, which takes it at once. -/
theorem act_start (hroom : 4 ≤ p.maxDepth) (hd : p.character? = some d) (hsolid : isGap d = false) :
    Scene.actUpTo grammar react p (n + 4) ((grammar .typedStart).actionFor [d])
        ⟨[.typedStart], content⟩ =
      Scene.actUpTo grammar react p (n + 2) ((grammar .typedValue).actionFor [d])
        ⟨[.typedValue, .typedStart], content⟩ := by
  have haction : (grammar .typedStart).actionFor [d] = .enter .typedValue := by
    rw [State.actionFor_singleton, hsolid]
    rfl
  have hone : ([StateName.typedStart].length : Int) < p.maxDepth := by simp; omega
  rw [haction, Scene.act_enter hone rfl]
  show Scene.actUpTo grammar react p (n + 2) ((grammar .typedValue).actionFor p.character?.toList) _
    = _
  rw [hd]
  rfl

theorem handle_start (hroom : 4 ≤ p.maxDepth) (hd : p.character? = some d)
    (hsolid : isGap d = false) : Scene.handle grammar react p ⟨[.typedStart], content⟩ =
      Scene.handle grammar react p ⟨({} : Scan).active, content⟩ := by
  rw [handle_scan {} hroom hd]
  exact (Scene.handle_cons hd).trans
    ((act_start hroom hd hsolid).trans (act_value (by omega) hd))

theorem handle_gap (hd : p.character? = some d) (hgap : isGap d = true) :
    Scene.handle grammar react p ⟨[.typedStart], content⟩ = some ⟨[.typedStart], content⟩ := by
  rw [Scene.handle_cons hd, actionFor_gap rfl hgap]
  rfl

end

/-! ## Whole texts -/

variable {maxDepth : Int} {before text after : Text} {content : Text}

@[simp] theorem kept_nil : kept [] = [] := rfl

theorem kept_cons (c : Char) (dropped : Bool) (marked : List (Char × Bool)) :
    kept ((c, dropped) :: marked) = (if dropped then [] else [c]) ++ kept marked := by
  cases dropped <;> rfl

theorem kept_append (first second : List (Char × Bool)) :
    kept (first ++ second) = kept first ++ kept second := by
  simp [kept]

theorem kept_dropped (text : Text) : kept (text.map (·, true)) = [] := by
  simp [kept, List.filter_map, Function.comp_def]

/-- The scan of a text goes on after its first part. -/
theorem Scan.marks_append (s : Scan) (first second : Text) :
    ∃ s' : Scan, s.marks (first ++ second) = s.marks first ++ s'.marks second := by
  induction first generalizing s with
  | nil => exact ⟨s, rfl⟩
  | cons c first ih =>
    obtain ⟨s', hmarks⟩ := ih (s.after c)
    refine ⟨s', ?_⟩
    rw [List.cons_append, Scan.marks, hmarks]
    rfl

theorem walk_scan (s : Scan) (hroom : 4 ≤ maxDepth) (before text after content : Text) :
    ∃ s' : Scan, Scene.walk grammar react maxDepth before text after ⟨s.active, content⟩ =
      some ⟨s'.active, content ++ kept (s.marks text)⟩ := by
  induction text generalizing before s content with
  | nil => exact ⟨s, by rw [Scan.marks, kept_nil, List.append_nil]; rfl⟩
  | cons d text ih =>
    obtain ⟨s', hwalk⟩ := ih (s.after d) (before ++ [d])
      (content ++ if s.delimits d then [] else [d])
    refine ⟨s', ?_⟩
    have hhandle : Scene.handle grammar react ⟨maxDepth, before, d :: (text ++ after)⟩
        ⟨s.active, content⟩ = some ⟨(s.after d).active,
          content ++ if s.delimits d then [] else [d]⟩ := by
      rw [handle_scan s hroom rfl]
      cases s.delimits d <;> simp
    rw [Scene.walk, hhandle, Scan.marks, kept_cons, ← List.append_assoc]
    exact hwalk

theorem walk_gaps (hgaps : text.all isGap = true) :
    Scene.walk grammar react maxDepth before text after ⟨[.typedStart], content⟩ =
      some ⟨[.typedStart], content⟩ := by
  induction text generalizing before with
  | nil => rfl
  | cons d text ih =>
    rw [List.all_cons, Bool.and_eq_true] at hgaps
    rw [Scene.walk, handle_gap rfl hgaps.1]
    exact ih hgaps.2

theorem finish_scan (s : Scan) {p : Spot} :
    Scene.finish grammar react p ⟨s.active, content⟩ = some ⟨[], content⟩ := by
  obtain ⟨opened, escaped⟩ := s
  rcases escaped with - | - <;> rcases opened with - | - | - <;> rfl

/-- Something is kept of a text that is not blank, and it starts with no gap. -/
theorem exists_dropWhile_isGap (h : isBlankText text = false) :
    ∃ d rest, text.dropWhile isGap = d :: rest ∧ isGap d = false := by
  cases hrest : text.dropWhile isGap with
  | nil =>
    have hgaps : text.takeWhile isGap = text := by
      simpa [hrest] using List.takeWhile_append_dropWhile (p := isGap) (l := text)
    have hblank : isBlankText text = true := by
      refine List.all_eq_true.2 fun d hd => isBlank_of_isGap ?_
      rw [← hgaps] at hd
      exact List.all_eq_true.1 List.all_takeWhile d hd
    rw [h] at hblank
    cases hblank
  | cons d rest =>
    refine ⟨d, rest, rfl, ?_⟩
    have hhead := List.head?_dropWhile_not isGap text
    rw [hrest] at hhead
    simpa using hhead

/-- A strict run keeps what the scan keeps. -/
theorem readText_strict (h : isBlankText text = false) : ∃ result,
    grammar.readText {} true listener .typedStart text [] = (kept (marks text), .ok result) := by
  obtain ⟨d, rest, hrest, hsolid⟩ := exists_dropWhile_isGap h
  have hsplit : text = text.takeWhile isGap ++ d :: rest := by
    rw [← hrest, List.takeWhile_append_dropWhile]
  have henter : Scene.enter grammar react ⟨256, [], text⟩ .typedStart ⟨[], []⟩ =
      some ⟨[.typedStart], []⟩ := rfl
  have hwalk : ∃ s : Scan, Scene.walk grammar react 256 [] text [] ⟨[.typedStart], []⟩ =
      some ⟨s.active, kept (marks text)⟩ := by
    have hroom : (4 : Int) ≤ 256 := by decide
    obtain ⟨s, hscan⟩ := walk_scan {} hroom (text.takeWhile isGap) (d :: rest) [] []
    refine ⟨s, ?_⟩
    have hstart : Scene.handle grammar react ⟨256, text.takeWhile isGap, d :: (rest ++ [])⟩
        ⟨[.typedStart], []⟩ = _ := handle_start hroom rfl hsolid
    have hmarks : kept (marks text) = kept (({} : Scan).marks (d :: rest)) := by
      rw [marks, if_neg (by rw [h]; nofun), kept_append, kept_dropped, hrest]
      rfl
    rw [hmarks]
    conv => lhs; rw [hsplit]
    rw [Scene.walk_append_of (walk_gaps List.all_takeWhile)]
    rw [Scene.walk, List.nil_append, hstart]
    exact hscan
  obtain ⟨s, hwalk⟩ := hwalk
  have hplain : ({} : Settings).substitutes = false := rfl
  have hread := (Graph.sketch_readText tame_grammar sketches hplain .typedStart text []).trans
    (Scene.read_eq_some _ _ henter hwalk (finish_scan s))
  cases hrun : grammar.readText {} true listener .typedStart text [] with
  | mk content outcome =>
    rw [hrun] at hread
    cases outcome with
    | error fault => cases hread
    | ok result =>
      cases hread
      exact ⟨result, rfl⟩

theorem logs_listener : listener.Logs id := by
  intro signal c content
  cases signal with
  | content => exact List.prefix_append _ _
  | _ => exact List.prefix_refl _

/-- A lenient run keeps what the scan keeps, as the strict one meets no error. -/
theorem readText_lenient (h : isBlankText text = false) : ∃ result,
    grammar.readText {} false listener .typedStart text [] = (kept (marks text), .ok result) := by
  obtain ⟨result, hstrict⟩ := readText_strict h
  have hallowed := CommandLine.allows_read steady_typed rfl {} false [] trivial (some text)
  have hsimulated := Graph.read_simulated (G := grammar) isLocal_listener logs_listener {}
    .typedStart (some text) [] hallowed.tolerant
  rw [Graph.read_of_not_isBlankText h, Graph.read_of_not_isBlankText h, hstrict] at hsimulated
  exact ⟨result, (hsimulated.returned rfl).1⟩

/-! ## What is read -/

theorem map_fst_marks (text : Text) : (marks text).map Prod.fst = text := by
  have hscan : ∀ (s : Scan) (rest : Text), (s.marks rest).map Prod.fst = rest := by
    intro s rest
    induction rest generalizing s with
    | nil => rfl
    | cons c rest ih => rw [Scan.marks, List.map_cons, ih]
  have hdropped : ∀ front : Text, (front.map (·, true)).map Prod.fst = front := by
    intro front
    rw [List.map_map]
    exact List.map_id front
  rw [marks]
  split
  · exact hdropped text
  · rw [List.map_append, hdropped, hscan, List.takeWhile_append_dropWhile]

theorem length_kept (marked : List (Char × Bool)) :
    (kept marked).length + marked.countP Prod.snd = marked.length := by
  induction marked with
  | nil => rfl
  | cons mark marked ih =>
    obtain ⟨c, dropped⟩ := mark
    rw [kept_cons, List.length_append, List.countP_cons, List.length_cons]
    cases dropped <;> simp <;> omega

/-- More text only adds to what is kept. -/
theorem kept_marks_prefix (text more : Text) :
    kept (marks text) <+: kept (marks (text ++ more)) := by
  by_cases hblank : isBlankText text = true
  · rw [marks, if_pos hblank, kept_dropped]
    exact List.nil_prefix
  · have hsolid : isBlankText text = false := eq_false_of_ne_true hblank
    have hsolid' : ¬ isBlankText (text ++ more) = true := by
      rw [isBlankText, List.all_append, Bool.and_eq_true]
      intro hall
      exact hblank hall.1
    obtain ⟨d, rest, hrest, -⟩ := exists_dropWhile_isGap hsolid
    have hdrop : (text ++ more).dropWhile isGap = text.dropWhile isGap ++ more := by
      rw [List.dropWhile_append, hrest]
      rfl
    obtain ⟨s', hscan⟩ := ({} : Scan).marks_append (text.dropWhile isGap) more
    rw [marks, marks, if_neg hblank, if_neg hsolid', hdrop, hscan]
    simp only [kept_append, kept_dropped, List.nil_append]
    exact List.prefix_append _ _

theorem read_eq (line : Option Text) : read line =
    .ok { content := kept (marks (line.getD []))
          offset := (marks (line.getD [])).countP Prod.snd } := by
  have hlength := length_kept (marks (line.getD []))
  rw [← List.length_map Prod.fst, map_fst_marks] at hlength
  have hoffset : (line.getD []).length - (kept (marks (line.getD []))).length =
      (marks (line.getD [])).countP Prod.snd := by omega
  have hrun : ∃ result, grammar.read {} false listener .typedStart line [] =
      (kept (marks (line.getD [])), .ok result) := by
    by_cases hblank : isBlankText (line.getD []) = true
    · rw [Graph.read, if_pos hblank, marks, if_pos hblank, kept_dropped]
      exact ⟨_, rfl⟩
    · rw [Graph.read, if_neg hblank]
      exact readText_lenient (eq_false_of_ne_true hblank)
  obtain ⟨result, hrun⟩ := hrun
  simp [read, hrun, hoffset]
  rfl

/-- Reading a value that is being typed never fails.  Its content is the text without the gaps at
its start and the quotes that open and close parts of it, and nothing if the text is blank; the
offset is the number of characters that were dropped.  So the content of a text is a prefix of the
content of every text that goes on after it. -/
theorem typed_value_read :
    (∀ line : Option Text,
      read line = .ok { content := kept (marks (line.getD []))
                        offset := (marks (line.getD [])).countP Prod.snd } ∧
        (marks (line.getD [])).map Prod.fst = line.getD []) ∧
    ∀ text more : Text, ∃ first whole : TypedValue, read (some text) = .ok first ∧
      read (some (text ++ more)) = .ok whole ∧ first.content <+: whole.content := by
  refine ⟨fun line => ⟨read_eq line, map_fst_marks _⟩, fun text more => ?_⟩
  exact ⟨_, _, read_eq (some text), read_eq (some (text ++ more)), kept_marks_prefix text more⟩

/-- A back quote in double quotes is kept, and so is a double quote after a backslash. -/
example : kept (marks " a\"b\x60\\\"\" c".toList) = "ab\x60\\\" c".toList := by decide

end CommandLine.TypedValue
