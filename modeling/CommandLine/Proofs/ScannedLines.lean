/-
# `CommandLine.Proofs.ScannedLines` — a run goes over a line with the scanner

A run over a line of arguments from which nothing is replaced keeps pace with the scanner, and so
does a listener that follows the signals of such a line (`Listener.KeepsPace`):

    a character is read            the scanner takes a step    (`ends_dispatch`)
    a round at the end of a line   the scanner retreats        (`ends_unwind`)

As a state is only entered where the scanner needs it, the stack is full exactly if the line is too
deep for the scanner; and the first complaint at the end of the line is about the innermost
delimiter.  `ends_readFrom_scanned` says so of a whole run, and that what has been gathered in the
end is as it should be for the whole line.
-/
import CommandLine.Proofs.ArgumentText
import CommandLine.Proofs.Telling

namespace CommandLine

open Text

/-! ## The actions of a value -/

namespace Delimiter

/-- The action of a character that can only open a part. -/
def openingAction (d : Char) : Action StateName :=
  match ofOpening? d with
  | some delimiter => .enter delimiter.state
  | none => .content

theorem lookup_valueOpeners (d : Char) :
    (Grammar.valueOpeners.lookup [d]).getD .content =
      if d = '\\' then .escape .escape else openingAction d := by
  unfold openingAction ofOpening? Grammar.valueOpeners
  simp only [lookup_upon, List.lookup_nil]
  split_ifs <;> first | rfl | (subst_vars; contradiction)

theorem actionFor_argumentValue {d : Char} (hgap : isGap d = false) :
    (grammar .argumentValue).actionFor [d] =
      if d = '\\' then .escape .escape else openingAction d := by
  rw [State.actionFor_singleton, hgap, ← lookup_valueOpeners]
  rfl

/-- Between brackets, parentheses or braces parts of all kinds can open. -/
theorem actionFor_group (name : StateName) (closing : Char)
    (hname : grammar name = Grammar.group name closing) (hclosing : closing ≠ '\\') (d : Char) :
    (grammar name).actionFor [d] =
      if d = '\\' then .escape .escape else if d = closing then .contentAndLeave
      else openingAction d := by
  rw [hname, State.actionFor_singleton]
  show ((List.lookup [d] (upon closing .contentAndLeave :: Grammar.valueOpeners)).getD
    (if isGap d then .content else .content)) = _
  rw [ite_self, lookup_upon]
  split
  · next hd =>
    subst hd
    rw [if_neg hclosing]
    rfl
  · exact lookup_valueOpeners d

/-- In quotes nothing opens. -/
theorem actionFor_quoting (name : StateName) (quote : Char) (expressions : Option Bool)
    (hname : grammar name = .quoting name.label [quote] .escape true true expressions)
    (d : Char) :
    (grammar name).actionFor [d] =
      if d = '\\' then .escape .escape else if d = quote then .contentAndLeave else .content := by
  rw [hname, State.actionFor_singleton]
  show (((Entries.insert ['\\'] (Action.escape StateName.escape)
    [([quote], .contentAndLeave)]).lookup [d]).getD (if isGap d then .content else .content)) = _
  rw [ite_self]
  split
  · next hd =>
    rw [hd, Entries.lookup_insert_self]
    rfl
  · next hd =>
    rw [Entries.lookup_insert_of_ne (by simpa using hd)]
    show ((List.lookup [d] [upon quote (.contentAndLeave : Action StateName)]).getD .content) = _
    rw [lookup_upon, List.lookup_nil]
    split <;> rfl

theorem actionFor_state (delimiter : Delimiter) (d : Char) :
    (grammar delimiter.state).actionFor [d] =
      if d = '\\' then .escape .escape
      else if d = delimiter.closing then .contentAndLeave
      else if delimiter.isQuote then .content
      else openingAction d := by
  cases delimiter with
  | brackets => exact actionFor_group _ ']' rfl (by decide) d
  | parentheses => exact actionFor_group _ ')' rfl (by decide) d
  | braces => exact actionFor_group _ '}' rfl (by decide) d
  | quotes => exact actionFor_quoting _ '"' none rfl d
  | backQuotes => exact actionFor_quoting _ '\x60' (some false) rfl d

theorem onEnter_state (delimiter : Delimiter) :
    (grammar delimiter.state).onEnter = .content := by
  cases delimiter <;> rfl

theorem onReturn_state (delimiter : Delimiter) :
    (grammar delimiter.state).onReturn = .skip := by
  cases delimiter <;> rfl

end Delimiter

/-! ## Reading a character -/

section

variable {τ : Type} {L : Listener StateName τ} {I : Scanner → Text → τ → Prop} {f : Footing}
  {location : Nat} {error : Option FormatError} {scanner : Scanner} {text : Text}
  {entered : List (StateName × Nat)} {s : Session StateName τ}

/-- The session has come as far as the scanner. -/
def Session.Scans (I : Scanner → Text → τ → Prop) (f : Footing) (location : Nat)
    (error : Option FormatError) (scanner : Scanner) (text : Text) (s : Session StateName τ) :
    Prop :=
  ∃ entered, scanner.Holds entered ∧ s.Abreast I f location error entered scanner text

/-- The limit is too low for so many states. -/
def Fault.Crowds (limit : Int) (depth : Nat) (fault : Fault) : Prop :=
  limit < depth ∧ ∃ location, fault = .format (.nestingTooDeep limit location)

namespace Machine

open Scanner
open Session.Abreast (Told)

variable (pace : L.KeepsPace f.line.substituted I)
include pace

/-- A state is left for the list of arguments, which goes on. -/
theorem ends_leave_outside {F : Fault → Session StateName τ → Prop} {x : StateName} {i n : Nat}
    {outer : List (StateName × Nat)} (hx : x.readsArguments = true) (h : outside.Holds outer)
    (hs : s.Abreast I f location error ((x, i) :: outer) scanner text)
    (told : Told f location ((x, i) :: outer) (.leaving x) scanner text outside text) :
    Ends F (fun _ t => t.Scans I f location error outside text)
      (actUpTo grammar L (n + 2) .leave) s := by
  cases h with
  | outside j => exact hs.leave_onto pace hx told fun t ht => .pure ⟨_, .outside j, ht⟩

/-- An argument is left together with the separator inside. -/
theorem ends_leave_name {F : Fault → Session StateName τ → Prop} {i n : Nat}
    {outer : List (StateName × Nat)} (h : name.Holds outer)
    (hscanner : scanner = separated ∨ scanner = value true [] false)
    (hlocation : location = text.length)
    (hgap : ∀ d, f.character? location = some d → isGap d = true)
    (hs : s.Abreast I f location error ((.nameValueSeparator, i) :: outer) scanner text) :
    Ends F (fun _ t => t.Scans I f location error outside text)
      (actUpTo grammar L (n + 3) .leave) s := by
  cases h with
  | name j h =>
    exact hs.leave_onto pace rfl .leavesSeparator fun t ht =>
      ends_leave_outside pace rfl h ht (.leavesName hlocation hgap (.inr hscanner))

/-- A state is left for the value or the part of a value around it, which goes on. -/
theorem ends_leave_value {F : Fault → Session StateName τ → Prop} {x : StateName} {i n : Nat}
    {named : Bool} {opened : List OpenPart} {outer : List (StateName × Nat)}
    (hx : x.readsArguments = true) (h : (value named opened false).Holds outer)
    (hs : s.Abreast I f location error ((x, i) :: outer) scanner text)
    (told : Told f location ((x, i) :: outer) (.leaving x) scanner text
      (value named opened false) text) :
    Ends F (fun _ t => t.Scans I f location error (value named opened false) text)
      (actUpTo grammar L (n + 2) .leave) s := by
  cases h with
  | value j h => exact hs.leave_onto pace hx told fun t ht => .pure ⟨_, .value j h, ht⟩
  | namedValue j h => exact hs.leave_onto pace hx told fun t ht => .pure ⟨_, .namedValue j h, ht⟩
  | opened o h =>
    refine hs.leave_onto pace hx told fun t ht => ?_
    rw [o.delimiter.onReturn_state]
    exact .pure ⟨_, .opened o h, ht⟩

/-- At a gap or at the end of the line, leaving the innermost state and those that go on by being
left takes the scanner back. -/
theorem ends_retreat {F : Fault → Session StateName τ → Prop} (n : Nat) (h : scanner.Holds entered)
    (hscanner : scanner ≠ outside)
    (hend : ∀ d, f.character? text.length = some d → isGap d = true ∧ scanner ≠ target)
    (hs : s.Abreast I f text.length error entered scanner text) :
    Ends F (fun _ t => t.Scans I f text.length error scanner.retreat text)
      (actUpTo grammar L (n + 4) .leave) s := by
  have hgap := fun d hd => (hend d hd).1
  have hholds := h
  cases h with
  | outside i => exact absurd rfl hscanner
  | name i h => exact ends_leave_outside pace rfl h hs (.leavesName rfl hgap (.inl rfl))
  | target i h =>
    have hnone : f.character? text.length = none :=
      Option.eq_none_iff_forall_ne_some.2 fun d hd => (hend d hd).2 rfl
    exact ends_leave_outside pace rfl h hs (.leavesTarget rfl hnone)
  | value i h =>
    exact ends_leave_outside pace rfl h hs (.leavesValue rfl hgap hholds.states_value)
  | separated i h => exact ends_leave_name pace h (.inl rfl) rfl hgap hs
  | namedValue i h =>
    cases h with
    | separated j h =>
      exact hs.leave_onto pace rfl (.leavesNamedValue hholds.states_value) fun t ht =>
        ends_leave_name pace h (.inr rfl) rfl hgap ht
  | opened o h =>
    exact ends_leave_value pace o.delimiter.readsArguments_state h hs (.leavesPart o)
  | escaped i h => exact ends_leave_value pace rfl h hs .leavesEscape

section

variable {d : Char} (hd : f.character? text.length = some d) {named : Bool}
  {opened : List OpenPart}
include hd

/-- A part is opened, or the character is content. -/
theorem ends_openingAction (n : Nat) {next : Scanner}
    (hnext : next = value named (openAt text.length d opened) false)
    (h : (value named opened false).Holds entered)
    (hs : s.Abreast I f text.length error entered (value named opened false) text) :
    Ends (fun fault _ => fault.Crowds f.settings.maxDepth next.depth)
      (fun _ t => t.Scans I f text.length error next (text ++ [d]))
      (actUpTo grammar L (n + 2) (Delimiter.openingAction d)) s := by
  subst hnext
  unfold Delimiter.openingAction openAt
  cases hopens : Delimiter.ofOpening? d with
  | none => exact hs.content pace (.content hd trivial) fun t ht => ⟨_, h, ht⟩
  | some delimiter =>
    have hopened := Holds.opened ⟨delimiter, text.length⟩ h
    refine hs.enter pace delimiter.readsArguments_state (fun hfull _ => ⟨?_, _, rfl⟩)
      (.part delimiter) fun t ht => ?_
    · rw [← hopened.length_eq, List.length_cons]
      omega
    · rw [delimiter.onEnter_state]
      exact ht.content pace (.content hd trivial) fun u hu => ⟨_, hopened, hu⟩

/-- A backslash waits for the next character. -/
theorem ends_escape (n : Nat) (h : (value named opened false).Holds entered)
    (hs : s.Abreast I f text.length error entered (value named opened false) text) :
    Ends (fun fault _ => fault.Crowds f.settings.maxDepth (value named opened true).depth)
      (fun _ t => t.Scans I f text.length error (value named opened true) (text ++ [d]))
      (actUpTo grammar L (n + 2) (.escape .escape)) s := by
  have hescaped := Holds.escaped text.length h
  refine hs.escape h.escapesIn_eq (hs.enter pace rfl (fun hfull _ => ⟨?_, _, rfl⟩) .escape
    fun t ht => ?_)
  · rw [← hescaped.length_eq, List.length_cons]
    omega
  · exact ht.content pace (.content hd trivial) fun u hu => ⟨_, hescaped, hu⟩

/-- The value goes on with any character but a gap. -/
theorem ends_value (n : Nat) {i : Nat} {outer : List (StateName × Nat)}
    (h : (value named [] false).Holds ((.argumentValue, i) :: outer)) (hgap : isGap d = false)
    (hs : s.Abreast I f text.length error ((.argumentValue, i) :: outer) (value named [] false)
      text) :
    Ends (fun fault _ => fault.Crowds f.settings.maxDepth (takeIn named [] text.length d).depth)
      (fun _ t => t.Scans I f text.length error (takeIn named [] text.length d) (text ++ [d]))
      (actUpTo grammar L (n + 2) ((grammar .argumentValue).actionFor [d])) s := by
  rw [Delimiter.actionFor_argumentValue hgap, takeIn]
  split
  · exact ends_escape pace hd n h hs
  · exact ends_openingAction pace hd n rfl h hs

/-- A value starts with any character but a gap. -/
theorem ends_startValue (n : Nat)
    (h : (value named [] false).Holds ((.argumentValue, text.length) :: entered))
    (hgap : isGap d = false) (hs : s.Abreast I f text.length error entered scanner text)
    (told : Told f text.length ((.argumentValue, text.length) :: entered) (.entered .argumentValue)
      scanner text (value named [] false) text) :
    Ends (fun fault _ => fault.Crowds f.settings.maxDepth (takeIn named [] text.length d).depth)
      (fun _ t => t.Scans I f text.length error (takeIn named [] text.length d) (text ++ [d]))
      (actUpTo grammar L (n + 4) (.enter .argumentValue)) s := by
  refine hs.enter pace rfl (fun hfull _ => ⟨?_, _, rfl⟩) told fun t ht => ?_
  · have hdepth := depth_le_takeIn named text.length d
    rw [← h.length_eq, List.length_cons] at hdepth
    omega
  · exact ht.dispatchBy hd (ends_value pace hd n h hgap ht)

/-- A part of a value goes on with any character. -/
theorem ends_part (n : Nat) {o : OpenPart} {outer : List (StateName × Nat)}
    (h : (value named opened false).Holds outer)
    (hs : s.Abreast I f text.length error ((o.delimiter.state, o.start) :: outer)
      (value named (o :: opened) false) text) :
    Ends (fun fault _ =>
        fault.Crowds f.settings.maxDepth (takeIn named (o :: opened) text.length d).depth)
      (fun _ t => t.Scans I f text.length error (takeIn named (o :: opened) text.length d)
        (text ++ [d]))
      (actUpTo grammar L (n + 4) ((grammar o.delimiter.state).actionFor [d])) s := by
  rw [Delimiter.actionFor_state, takeIn]
  split
  · exact ends_escape pace hd (n + 2) (.opened o h) hs
  · split
    · exact hs.contentAndLeave pace (.content hd trivial) fun t ht =>
        ends_leave_value pace o.delimiter.readsArguments_state h ht (.leavesPart o)
    · split
      · exact hs.content pace (.content hd trivial) fun t ht => ⟨_, .opened o h, ht⟩
      · exact ends_openingAction pace hd (n + 2) rfl (.opened o h) hs

/-- A character between two arguments. -/
theorem ends_outside (n : Nat) {i : Nat}
    (hs : s.Abreast I f text.length error [(.argumentList, i)] outside text) :
    Ends (fun fault _ => fault.Crowds f.settings.maxDepth (outside.step text.length d).depth)
      (fun _ t => t.Scans I f text.length error (outside.step text.length d) (text ++ [d]))
      (actUpTo grammar L (n + 4) ((grammar .argumentList).actionFor [d])) s := by
  have full {next : Scanner} (hnext : next.depth = 2) (hfull : f.settings.maxDepth ≤ 1) :
      (Fault.format (.nestingTooDeep f.settings.maxDepth text.length)).Crowds f.settings.maxDepth
        next.depth := by
    refine ⟨?_, _, rfl⟩
    rw [hnext]
    omega
  rw [actionFor_argumentList, Scanner.step]
  cases hgap : isGap d with
  | true =>
    have hdash : d ≠ '-' := by
      rintro rfl
      cases hgap
    have htarget : d ≠ '>' := by
      rintro rfl
      cases hgap
    simp only [hdash, htarget, if_true, if_false]
    exact .pure ⟨_, .outside i, hs.toPoised, pace.gap hgap hd hs.kept⟩
  | false =>
    simp only [Bool.false_eq_true, if_false]
    split
    · next hdash =>
      subst hdash
      have htakes : Takes name '-' := show '-' ≠ '=' by decide
      exact hs.enter pace rfl (fun hfull _ => full rfl hfull) (.name rfl hd) fun t ht =>
        ht.content pace (.content hd htakes) fun u hu => ⟨_, .name text.length (.outside i), hu⟩
    · split
      · next htarget =>
        subst htarget
        exact hs.enter pace rfl (fun hfull _ => full rfl hfull) (.target rfl hd) fun t ht =>
          .pure ⟨_, .target text.length (.outside i), ht⟩
      · exact ends_startValue pace hd n (.value text.length (.outside i)) hgap hs
          (.value rfl hd hgap rfl)

/-- The action of the innermost state takes the run one step further with the scanner. -/
theorem ends_actionFor (n : Nat) {x : StateName} {i : Nat} {outer : List (StateName × Nat)}
    (h : scanner.Holds ((x, i) :: outer))
    (hs : s.Abreast I f text.length error ((x, i) :: outer) scanner text) :
    Ends (fun fault _ => fault.Crowds f.settings.maxDepth (scanner.step text.length d).depth)
      (fun _ t => t.Scans I f text.length error (scanner.step text.length d) (text ++ [d]))
      (actUpTo grammar L (n + 5) ((grammar x).actionFor [d])) s := by
  -- a gap ends what is being read and is passed over
  have hpassed (hgap : isGap d = true) (htarget : scanner ≠ target) (hscanner : scanner ≠ outside)
      (hretreat : scanner.retreat = outside) :
      Ends (fun fault _ => fault.Crowds f.settings.maxDepth outside.depth)
        (fun _ t => t.Scans I f text.length error outside (text ++ [d]))
        (actUpTo grammar L (n + 5) .leave) s := by
    have hend : ∀ e, f.character? text.length = some e → isGap e = true ∧ scanner ≠ target := by
      intro e he
      cases hd.symm.trans he
      exact ⟨hgap, htarget⟩
    refine (ends_retreat pace (n + 1) h hscanner hend hs).mono (fun _ _ hF => hF) ?_
    rintro _ t ⟨entered, ht, hold⟩
    rw [hretreat] at ht hold
    exact ⟨entered, ht, hold.toPoised, pace.gap hgap hd hold.kept⟩
  cases h with
  | outside => exact ends_outside pace hd (n + 1) hs
  | name _ h =>
    rw [actionFor_argument, Scanner.step]
    cases hgap : isGap d with
    | true =>
      have hequals : d ≠ '=' := by
        rintro rfl
        cases hgap
      simp only [hequals, if_true, if_false]
      exact hpassed hgap (by simp) (by simp) rfl
    | false =>
      simp only [Bool.false_eq_true, if_false]
      split
      · next hequals =>
        subst hequals
        have hseparated := Holds.separated text.length (.name i h)
        refine hs.enter pace rfl (fun hfull _ => ⟨?_, _, rfl⟩) (.separator rfl hd) fun t ht =>
          .pure ⟨_, hseparated, ht⟩
        rw [← hseparated.length_eq, List.length_cons]
        omega
      · next hequals =>
        exact hs.content pace (.content hd hequals) fun t ht => ⟨_, .name i h, ht⟩
  | separated _ h =>
    rw [actionFor_nameValueSeparator, Scanner.step]
    split
    · next hgap => exact hpassed hgap (by simp) (by simp) rfl
    · next hgap =>
      have hvalue := Holds.namedValue text.length (.separated i h)
      exact ends_startValue pace hd (n + 1) hvalue (eq_false_of_ne_true hgap) hs
        (.namedValue hvalue.states_value)
  | target _ h =>
    rw [Draft.actionFor_outputTarget]
    exact hs.content pace (.content hd trivial) fun t ht => ⟨_, .target i h, ht⟩
  | value _ h =>
    rw [Scanner.step]
    split
    · next hgap =>
      rw [actionFor_argumentValue_of_isGap hgap]
      exact hpassed hgap (by simp) (by simp) rfl
    · next hgap => exact ends_value pace hd (n + 3) (.value i h) (eq_false_of_ne_true hgap) hs
  | namedValue _ h =>
    rw [Scanner.step]
    split
    · next hgap =>
      rw [actionFor_argumentValue_of_isGap hgap]
      exact hpassed hgap (by simp) (by simp) rfl
    · next hgap =>
      exact ends_value pace hd (n + 3) (.namedValue i h) (eq_false_of_ne_true hgap) hs
  | opened o h => exact ends_part pace hd (n + 1) h hs
  | escaped _ h =>
    rw [actionFor_escape]
    exact hs.contentAndLeave pace (.content hd trivial) fun t ht =>
      ends_leave_value pace rfl h ht .leavesEscape

/-- A character takes the run one step further with the scanner. -/
theorem ends_dispatch (hs : s.Scans I f text.length error scanner text) :
    Ends (fun fault _ => fault.Crowds f.settings.maxDepth (scanner.step text.length d).depth)
      (fun _ t => t.Scans I f text.length error (scanner.step text.length d) (text ++ [d]))
      (dispatch grammar L) s := by
  obtain ⟨entered, h, hs⟩ := hs
  cases entered with
  | nil => cases h
  | cons first outer => exact hs.dispatchBy hd (ends_actionFor pace hd 995 h hs)

end

/-! ## The end of a line -/

/-- The run ends strictly with the complaint. -/
def Complains (f : Footing) (complaint : Option FormatError) (fault : Fault) : Prop :=
  f.strict = true ∧ ∃ e, complaint = some e ∧ fault = .format e

omit pace in
/-- At the end of the line the innermost state complains if its delimiter is missing. -/
theorem ends_endState {a : Scanner} (h : scanner.Holds entered)
    (hs : s.Abreast I f location error entered a text) :
    Ends (fun fault _ => Complains f scanner.complaint fault)
      (fun _ t => (f.strict = true → scanner.complaint = none) ∧
        t.Abreast I f location (error.or scanner.complaint) entered a text)
      (endState grammar L) s := by
  cases entered with
  | nil => cases h
  | cons first outer =>
    obtain ⟨x, i⟩ := first
    obtain ⟨frame, hframe, rfl, hplace⟩ := hs.frame?
    rw [endState, frame_bind_eq]
    refine .read ?_
    rw [hframe]
    dsimp only
    rcases h.onEnd_eq with ⟨hnone, hskip⟩ | ⟨delimiter, hsome, honEnd⟩
    · rw [hskip, hnone, Option.or_none]
      exact .pure ⟨fun _ => rfl, hs⟩
    · rw [honEnd, hsome]
      show Ends _ _ (notFinished delimiter) s
      rw [notFinished, frame_bind_eq]
      refine .read ?_
      rw [hframe]
      dsimp only
      rw [hplace]
      have hstrict : s.context.strict = f.strict := congrArg Footing.strict hs.footing_eq
      refine .complain (fun strictly => ⟨hstrict ▸ strictly, _, rfl, rfl⟩) fun leniently => ⟨?_, ?_⟩
      · rw [← hstrict, leniently]
        exact fun hf => by cases hf
      · refine ⟨⟨hs.footing_eq, hs.location_eq, ?_, hs.limit_eq, hs.frames_eq, hs.room⟩, hs.kept⟩
        show s.context.error.or _ = _
        rw [hs.error_eq]

omit pace in
/-- Between two arguments nothing is left to be unwound. -/
theorem ends_unwind_outside (limit : Nat) (hs : s.Scans I f location error outside text) :
    Ends (fun fault _ => Complains f outside.missing fault)
      (fun _ t => (f.strict = true → outside.missing = none) ∧
        t.Scans I f location (error.or outside.missing) outside text)
      (unwind grammar L limit) s := by
  have hdepth : ¬ 1 < s.context.stack.depth := by
    obtain ⟨entered, h, hs⟩ := hs
    rw [hs.depth, h.length_eq]
    exact Nat.lt_irrefl 1
  have hend : unwind grammar L limit s = .ok () s := by
    cases limit with
    | zero => rw [unwind, context_bind_apply, if_neg hdepth]; rfl
    | succ limit => rw [unwind, context_bind_apply, if_neg hdepth]; rfl
  refine .of_ok hend ⟨fun _ => rfl, ?_⟩
  show s.Scans I f location (error.or none) outside text
  rwa [Option.or_none]

section

variable (hend : f.character? text.length = none)
include hend

/-- Each round takes the scanner back, and what is missing is complained about. -/
theorem ends_unwind (limit : Nat) (hlimit : scanner.depth ≤ limit + 1)
    (hs : s.Scans I f text.length error scanner text) :
    Ends (fun fault _ => Complains f scanner.missing fault)
      (fun _ t => (f.strict = true → scanner.missing = none) ∧
        t.Scans I f text.length (error.or scanner.missing) outside text)
      (unwind grammar L limit) s := by
  induction limit generalizing scanner error s with
  | zero =>
    by_cases hscanner : scanner = outside
    · subst hscanner
      exact ends_unwind_outside 0 hs
    · exact absurd (one_lt_depth hscanner) (Nat.not_lt.2 hlimit)
  | succ limit ih =>
    by_cases hscanner : scanner = outside
    · subst hscanner
      exact ends_unwind_outside _ hs
    · obtain ⟨entered, h, hs⟩ := hs
      have hdeep {e : Option FormatError} {t : Session StateName τ}
          (ht : t.Abreast I f text.length e entered scanner text) :
          1 < t.context.stack.depth := by
        rw [ht.depth, h.length_eq]
        exact one_lt_depth hscanner
      have hover : ∀ d, f.character? text.length = some d → isGap d = true ∧ scanner ≠ target :=
        fun d hd => nomatch hend.symm.trans hd
      refine .read ?_
      rw [if_pos (hdeep hs), missing_eq]
      refine Ends.bind ((ends_endState h hs).mono ?_ fun _ _ ht => ht) fun _ t ht => ?_
      · rintro fault _ ⟨hstrict, e, hcomplaint, rfl⟩
        exact ⟨hstrict, e, by rw [hcomplaint]; rfl, rfl⟩
      obtain ⟨hcomplaint, ht⟩ := ht
      refine .read ?_
      rw [if_pos (hdeep ht)]
      refine Ends.bind (ends_retreat pace 997 h hscanner hover ht) fun _ u hu => ?_
      have hless := Nat.lt_of_lt_of_le (depth_retreat_lt hscanner) hlimit
      have hretreat := ih (Nat.le_of_lt_succ hless) hu
      rw [Option.or_assoc] at hretreat
      refine hretreat.mono ?_ fun _ v hv => ⟨fun hstrict => ?_, hv.2⟩
      · rintro fault _ ⟨hstrict, e, hmissing, rfl⟩
        exact ⟨hstrict, e, by rw [hcomplaint hstrict]; exact hmissing, rfl⟩
      · rw [hcomplaint hstrict]
        exact hv.1 hstrict

/-- At the end of the line all states are left, and what is missing is complained about. -/
theorem ends_finish (hs : s.Scans I f text.length error scanner text) :
    Ends (fun fault _ => Complains f scanner.missing fault)
      (fun _ t => (f.strict = true → scanner.missing = none) ∧
        t.context.error = error.or scanner.missing ∧ I outside text t.gathered)
      (finish grammar L) s := by
  have hlimit : scanner.depth ≤ unwindLimit s.context.settings s.context.stack.depth + 1 := by
    obtain ⟨entered, h, hs⟩ := hs
    rw [unwindLimit, hs.depth, h.length_eq]
    omega
  refine .read ((ends_unwind pace hend _ hlimit hs).bind fun _ t ht => ?_)
  obtain ⟨hmissing, entered, h, ht⟩ := ht
  -- what is left is the list of arguments, which does not complain
  have hopen {e : Option FormatError} {u : Session StateName τ}
      (hu : u.Abreast I f text.length e entered outside text) : 0 < u.context.stack.depth := by
    rw [hu.depth, h.length_eq]
    exact Nat.one_pos
  refine .read ?_
  rw [if_pos (hopen ht)]
  refine Ends.bind ((ends_endState h ht).mono ?_ fun _ _ hu => hu.2) fun _ u hu => .read ?_
  · rintro _ _ ⟨-, _, hnone, -⟩
    cases hnone
  · rw [if_pos (hopen hu)]
    cases h with
    | outside i =>
      refine hu.leave pace (n := 999) rfl .leavesList fun v hv => .read ?_
      rw [hv.frame?_nil]
      refine .pure ⟨hmissing, hv.error_eq.trans ?_, hv.kept⟩
      show (error.or scanner.missing).or none = _
      rw [Option.or_none]

end
end Machine
end

/-! ## Whole lines -/

/-- Nothing is replaced on the line: wherever expressions and variables are looked for, none is
found. -/
def Unsubstituted (settings : Settings) (strict : Bool) (text : Text) : Prop :=
  ∀ before rest, text = before ++ rest → (Scanner.after before).resolves = true →
    ({ Context.start settings strict text with
        location := before.length } : Context StateName).resolveHere = .ok none

/-- No part of the line takes more states than the limit. -/
def Shallow (limit : Int) (text : Text) : Prop :=
  ∀ before, before <+: text → ((Scanner.after before).depth : Int) ≤ limit

theorem Shallow.concat {limit : Int} {text : Text} {d : Char} (h : Shallow limit text)
    (hd : ((Scanner.after (text ++ [d])).depth : Int) ≤ limit) : Shallow limit (text ++ [d]) := by
  intro before hbefore
  rcases List.prefix_concat_iff.1 hbefore with rfl | hbefore
  · exact hd
  · exact h before hbefore

theorem unsubstituted_of_plain {settings : Settings} (h : settings.substitutes = false)
    (strict : Bool) (text : Text) : Unsubstituted settings strict text :=
  fun _ _ _ _ => Context.resolveHere_of_plain h

section

variable {τ : Type} {L : Listener StateName τ} {I : Scanner → Text → τ → Prop}
  {settings : Settings} {strict : Bool} {text before rest : Text} {error : Option FormatError}
  {s : Session StateName τ}

/-- The session has come as far as the scanner on a line that is read as it was typed. -/
abbrev Session.ScansLine (I : Scanner → Text → τ → Prop) (settings : Settings) (strict : Bool)
    (text before : Text) (s : Session StateName τ) : Prop :=
  s.Scans I ⟨settings, strict, .ofText text⟩ before.length none (Scanner.after before) before

theorem Footing.character?_scanned (settings : Settings) (strict : Bool) (before rest : Text) :
    Footing.character? ⟨settings, strict, .ofText (before ++ rest)⟩ before.length = rest.head? := by
  show (before ++ rest)[before.length]? = rest.head?
  rw [List.getElem?_append_right (Nat.le_refl _), Nat.sub_self, List.head?_eq_getElem?]

theorem Session.ScansLine.atEnd (hs : s.ScansLine I settings strict (before ++ rest) before) :
    s.context.atEnd = rest.head?.isNone := by
  obtain ⟨entered, -, hs⟩ := hs
  rw [Context.atEnd_eq_isNone, hs.character?, Footing.character?_scanned]

namespace Machine

theorem prepare_of_unsubstituted (h : Unsubstituted settings strict (before ++ rest))
    (hs : s.ScansLine I settings strict (before ++ rest) before) : prepare s = .ok () s := by
  obtain ⟨entered, hholds, hs⟩ := hs
  rw [prepare, context_bind_apply, hs.expressionsEnabled, hholds.expressionsIn_eq]
  cases hresolves : (Scanner.after before).resolves with
  | false => rfl
  | true =>
    have hhere : s.context.resolveHere = .ok none :=
      (Context.resolveHere_congr hs.footing_eq hs.location_eq).trans (h before rest rfl hresolves)
    rw [if_pos rfl, resolve_apply, Context.resolve_of_none hhere]

variable (pace : L.KeepsPace text I)
include pace

/-- A character is handled and the cursor moves on. -/
theorem ends_handle_scanned {d : Char} (htext : text = before ++ d :: rest)
    (hs : s.ScansLine I settings strict text before) :
    Ends (fun fault _ => fault.Crowds settings.maxDepth (Scanner.after (before ++ [d])).depth)
      (fun _ t => t.ScansLine I settings strict text (before ++ [d]))
      (handle grammar L) s := by
  have hd : Footing.character? ⟨settings, strict, .ofText text⟩ before.length = some d := by
    rw [htext]
    exact Footing.character?_scanned settings strict before (d :: rest)
  have hdispatch := ends_dispatch (f := ⟨settings, strict, .ofText text⟩) pace hd hs
  rw [← Scanner.after_concat] at hdispatch
  refine hdispatch.bind fun _ t ht => ?_
  obtain ⟨entered, h, ht⟩ := ht
  have hinside : t.context.atEnd = false := by
    rw [Context.atEnd_eq_isNone, ht.character?, hd]
    rfl
  have hadvance := advance_apply t
  rw [hinside] at hadvance
  refine .of_ok hadvance ⟨entered, h, ⟨ht.footing_eq, ?_, ht.error_eq, ht.limit_eq, ht.frames_eq,
    ht.room⟩, ht.kept⟩
  rw [List.length_append]
  exact congrArg (· + 1) ht.location_eq

/-- The walk goes on with the scanner to the end of the line, unless the line is too deep. -/
theorem ends_walk_scanned (hplain : Unsubstituted settings strict text) {limit : Nat}
    (htext : text = before ++ rest) (hlimit : rest.length ≤ limit)
    (hshallow : Shallow settings.maxDepth before)
    (hs : s.ScansLine I settings strict text before) :
    Ends (fun fault _ => ¬ Shallow settings.maxDepth text ∧
        ∃ location, fault = .format (.nestingTooDeep settings.maxDepth location))
      (fun _ t => Shallow settings.maxDepth text ∧ t.ScansLine I settings strict text text)
      (walk grammar L limit) s := by
  induction rest generalizing before limit s with
  | nil =>
    have hend : s.context.atEnd = true := Session.ScansLine.atEnd (htext ▸ hs)
    rw [List.append_nil] at htext
    subst htext
    exact .of_ok (walk_of_atEnd limit hend) ⟨hshallow, hs⟩
  | cons d rest ih =>
    obtain ⟨limit, rfl⟩ : ∃ l, limit = l + 1 := Nat.exists_eq_succ_of_ne_zero (by
      rw [List.length_cons] at hlimit
      omega)
    have hinside : s.context.atEnd = false := Session.ScansLine.atEnd (htext ▸ hs)
    have hprepare : prepare s = .ok () s := prepare_of_unsubstituted (htext ▸ hplain) (htext ▸ hs)
    have hround : walk grammar L (limit + 1) s = (do
        handle grammar L
        walk grammar L limit) s := walk_succ_of_prepare hinside hprepare hinside
    have hnext : text = (before ++ [d]) ++ rest := by
      rw [htext, List.append_assoc]
      rfl
    refine .of_eq hround (Ends.bind ((ends_handle_scanned pace htext hs).mono ?_
      fun _ _ ht => ht) fun _ t ht => ?_)
    · rintro fault _ ⟨hcrowded, location, rfl⟩
      refine ⟨fun hall => ?_, location, rfl⟩
      have := hall (before ++ [d]) (hnext ▸ List.prefix_append _ _)
      omega
    · refine ih hnext (Nat.le_of_succ_le_succ hlimit) (hshallow.concat ?_) ht
      obtain ⟨entered, h, ht⟩ := ht
      have hroom := ht.room h.ne_nil
      rwa [h.length_eq] at hroom

/-- A run over a line that is not replaced ends as the scanner says, unless the line is too deep,
and what has been gathered is as it should be for the whole line. -/
theorem ends_readFrom_scanned (hplain : Unsubstituted settings strict text) {limit : Nat}
    (hlimit : text.length ≤ limit) (gathered : τ) (hgathered : I .outside [] gathered) :
    Ends (fun fault _ =>
        (¬ Shallow settings.maxDepth text ∧
          ∃ location, fault = .format (.nestingTooDeep settings.maxDepth location)) ∨
        Shallow settings.maxDepth text ∧ strict = true ∧
          ∃ e, (Scanner.after text).missing = some e ∧ fault = .format e)
      (fun _ t => Shallow settings.maxDepth text ∧
        (strict = true → (Scanner.after text).missing = none) ∧
        t.context.error = (Scanner.after text).missing ∧ I .outside text t.gathered)
      (readFrom grammar L .argumentList limit) (.start settings strict text gathered) := by
  have hstart : (Session.start settings strict text gathered).Abreast I
      ⟨settings, strict, .ofText text⟩ 0 none [] .outside [] :=
    ⟨⟨rfl, rfl, rfl, rfl, rfl, fun hne => absurd rfl hne⟩, hgathered⟩
  have henter : Ends (fun fault _ => ¬ Shallow settings.maxDepth text ∧
        ∃ location, fault = .format (.nestingTooDeep settings.maxDepth location))
      (fun _ t => t.Abreast I ⟨settings, strict, .ofText text⟩ 0 none [(.argumentList, 0)]
        .outside [])
      (enter grammar L .argumentList) (.start settings strict text gathered) := by
    refine hstart.enter pace (n := 1000) rfl (fun hfull _ => ⟨fun hall => ?_, _, rfl⟩) .list
      fun t ht => .pure ht
    have hone : 1 ≤ settings.maxDepth := hall [] List.nil_prefix
    have hzero : settings.maxDepth ≤ 0 := hfull
    omega
  refine Ends.bind (henter.mono (fun _ _ => .inl) fun _ _ ht => ht) fun _ t ht => ?_
  have hshallow : Shallow settings.maxDepth [] := by
    intro before hbefore
    rw [List.prefix_nil.1 hbefore]
    exact ht.room (List.cons_ne_nil _ _)
  refine Ends.bind ((ends_walk_scanned pace hplain rfl hlimit hshallow
    ⟨_, .outside 0, ht⟩).mono (fun _ _ => .inl) fun _ _ hu => hu) fun _ u hu => ?_
  have hend : Footing.character? ⟨settings, strict, .ofText text⟩ text.length = none :=
    List.getElem?_eq_none (Nat.le_refl _)
  refine (ends_finish (f := ⟨settings, strict, .ofText text⟩) pace hend hu.2).mono
    (fun _ _ hF => .inr ⟨hu.1, hF⟩) fun _ v hv => ⟨hu.1, hv.1, ?_, hv.2.2⟩
  rw [hv.2.1, Option.none_or]

end Machine
end

end CommandLine
