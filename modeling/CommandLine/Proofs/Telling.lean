/-
# `CommandLine.Proofs.Telling` — what is told while arguments are read

The scanner goes over the characters of a line of arguments one by one.  A listener is told of the
same line in smaller steps: a state is entered or left, or a character is content.  `Scanner.Hears`
says which signals there are and what each one does to the scanner and to the text that has been
gone over:

    entered     the scanner takes up an argument, a value or a part; `=` and `>` are taken with it
    content     the character joins the text
    leaving     the scanner gives up what it took up last, an argument only at a gap or at the end

A listener *keeps pace* with the scanner if what it has gathered follows each of these steps, and
each gap between two arguments (`Listener.KeepsPace`); a session is *abreast* of the scanner if it
is poised and what has been gathered is as it should be (`Session.Abreast`).  The rules say what an
action makes of such a session, in terms of the actions that it sets off.
-/
import CommandLine.Proofs.Quiet
import CommandLine.Proofs.Scanner

namespace CommandLine

open Text

/-! ## The stack that a scanner stands for -/

/-- The state that reads the part. -/
def Delimiter.state : Delimiter → StateName
  | brackets => .brackets
  | parentheses => .parentheses
  | braces => .braces
  | quotes => .quotes
  | backQuotes => .backQuotes

theorem Delimiter.readsArguments_state (delimiter : Delimiter) :
    delimiter.state.readsArguments = true := by
  cases delimiter <;> rfl

namespace Scanner

/-- The states that are active when a run has come as far as the scanner, with the places where
they were entered. -/
inductive Holds : Scanner → List (StateName × Nat) → Prop
  | outside (i : Nat) : Holds outside [(.argumentList, i)]
  | name {outer} (i : Nat) (h : Holds outside outer) : Holds name ((.argument, i) :: outer)
  | separated {outer} (i : Nat) (h : Holds name outer) :
    Holds separated ((.nameValueSeparator, i) :: outer)
  | target {outer} (i : Nat) (h : Holds outside outer) : Holds target ((.outputTarget, i) :: outer)
  | value {outer} (i : Nat) (h : Holds outside outer) :
    Holds (value false [] false) ((.argumentValue, i) :: outer)
  | namedValue {outer} (i : Nat) (h : Holds separated outer) :
    Holds (value true [] false) ((.argumentValue, i) :: outer)
  | opened {named opened outer} (o : OpenPart) (h : Holds (value named opened false) outer) :
    Holds (value named (o :: opened) false) ((o.delimiter.state, o.start) :: outer)
  | escaped {named opened outer} (i : Nat) (h : Holds (value named opened false) outer) :
    Holds (value named opened true) ((.escape, i) :: outer)

/-- The states that are active where a value starts. -/
def valueStack (named : Bool) : List StateName :=
  if named then [.argumentValue, .nameValueSeparator, .argument, .argumentList]
  else [.argumentValue, .argumentList]

namespace Holds

variable {scanner : Scanner} {entered : List (StateName × Nat)}

theorem ne_nil (h : scanner.Holds entered) : entered ≠ [] := by
  cases h <;> exact List.cons_ne_nil _ _

theorem length_eq (h : scanner.Holds entered) : entered.length = scanner.depth := by
  induction h with
  | outside i => rfl
  | name i _ ih | separated i _ ih | target i _ ih | value i _ ih | namedValue i _ ih =>
    rw [List.length_cons, ih]
    rfl
  | opened o _ ih =>
    rw [List.length_cons, ih]
    rfl
  | escaped i _ ih =>
    rw [List.length_cons, ih]
    rfl

theorem states_value {named : Bool} (h : (Scanner.value named [] false).Holds entered) :
    entered.map Prod.fst = valueStack named := by
  cases h with
  | value i h =>
    cases h
    rfl
  | namedValue i h =>
    cases h with
    | separated j h =>
      cases h with
      | name k h =>
        cases h
        rfl

/-- The innermost state complains at the end of the line if the scanner does. -/
theorem onEnd_eq {x : StateName} {i : Nat} {outer : List (StateName × Nat)}
    (h : scanner.Holds ((x, i) :: outer)) :
    (scanner.complaint = none ∧ (grammar x).onEnd = .skip) ∨
      ∃ delimiter, scanner.complaint = some (.valueNotFinished delimiter i) ∧
        (grammar x).onEnd = .notFinished delimiter := by
  cases h with
  | @opened named opened _ o h =>
    obtain ⟨delimiter, start⟩ := o
    cases delimiter <;> exact .inr ⟨_, rfl, rfl⟩
  | @escaped named opened _ _ h => cases opened <;> exact .inl ⟨rfl, rfl⟩
  | _ => exact .inl ⟨rfl, rfl⟩

/-- Expressions are resolved where the scanner says. -/
theorem expressionsIn_eq (h : scanner.Holds entered) :
    grammar.expressionsIn (entered.map Prod.fst) = scanner.resolves := by
  induction h with
  | outside i | escaped i _ _ => rfl
  | @opened named opened outer o _ ih =>
    obtain ⟨delimiter, start⟩ := o
    rw [resolves, Bool.not_false, Bool.true_and] at ih
    cases delimiter with
    | backQuotes => rfl
    | _ => exact ih.trans (by simp [resolves])
  | _ => assumption

/-- Escapes are enabled but directly after a backslash. -/
theorem escapesIn_eq (h : scanner.Holds entered) :
    grammar.escapesIn (entered.map Prod.fst) = !scanner.isEscaped := by
  induction h with
  | outside i | escaped i _ _ => rfl
  | @opened named opened outer o _ ih =>
    obtain ⟨delimiter, start⟩ := o
    cases delimiter with
    | quotes | backQuotes => rfl
    | _ => exact ih
  | _ => assumption

end Holds

/-! ## Signals -/

/-- The character is content where the scanner stands. -/
def Takes : Scanner → Char → Prop
  | outside, _ | separated, _ => False
  | name, d => d ≠ '='
  | value _ _ _, _ | target, _ => True

/-- At a location, with the given character there and the given states active, the listener is
told the signal; the scanner and the text that has been gone over, before and after it. -/
inductive Hears (location : Nat) (next? : Option Char) (active : List StateName) :
    Signal StateName → Scanner → Text → Scanner → Text → Prop
  | list : Hears location next? active (.entered .argumentList) outside [] outside []
  | name {text} (hlocation : location = text.length) (hnext : next? = some '-') :
    Hears location next? active (.entered .argument) outside text name text
  | target {text} (hlocation : location = text.length) (hnext : next? = some '>') :
    Hears location next? active (.entered .outputTarget) outside text target (text ++ ['>'])
  | value {text d} (hlocation : location = text.length) (hnext : next? = some d)
    (hgap : isGap d = false) (hactive : active = valueStack false) :
    Hears location next? active (.entered .argumentValue) outside text (value false [] false) text
  | separator {text} (hlocation : location = text.length) (hnext : next? = some '=') :
    Hears location next? active (.entered .nameValueSeparator) name text
      separated (text ++ ['='])
  | namedValue {text} (hactive : active = valueStack true) :
    Hears location next? active (.entered .argumentValue) separated text (value true [] false) text
  | part {text named opened} (delimiter : Delimiter) :
    Hears location next? active (.entered delimiter.state) (value named opened false) text
      (value named (⟨delimiter, location⟩ :: opened) false) text
  | escape {text named opened} :
    Hears location next? active (.entered .escape) (value named opened false) text
      (value named opened true) text
  | content {scanner text d} (hnext : next? = some d) (htakes : Takes scanner d) :
    Hears location next? active .content scanner text scanner (text ++ [d])
  | leavesPart {text named opened} (o : OpenPart) :
    Hears location next? active (.leaving o.delimiter.state) (value named (o :: opened) false) text
      (value named opened false) text
  | leavesEscape {text named opened} :
    Hears location next? active (.leaving .escape) (value named opened true) text
      (value named opened false) text
  | leavesValue {text} (hlocation : location = text.length)
    (hnext : ∀ d, next? = some d → isGap d = true) (hactive : active = valueStack false) :
    Hears location next? active (.leaving .argumentValue) (value false [] false) text outside text
  | leavesNamedValue {text} (hactive : active = valueStack true) :
    Hears location next? active (.leaving .argumentValue) (value true [] false) text
      (value true [] false) text
  | leavesSeparator {scanner text} :
    Hears location next? active (.leaving .nameValueSeparator) scanner text scanner text
  | leavesName {scanner text} (hlocation : location = text.length)
    (hnext : ∀ d, next? = some d → isGap d = true)
    (hscanner : scanner = name ∨ scanner = separated ∨ scanner = value true [] false) :
    Hears location next? active (.leaving .argument) scanner text outside text
  | leavesTarget {text} (hlocation : location = text.length) (hnext : next? = none) :
    Hears location next? active (.leaving .outputTarget) target text outside text
  | leavesList {text} :
    Hears location next? active (.leaving .argumentList) outside text outside text

end Scanner

section

variable {τ : Type} {L : Listener StateName τ} {input : Text}
  {I : Scanner → Text → τ → Prop}

/-- On a line of arguments the listener is never at fault, and what it has gathered stays as it
should be for the scanner and the text that has been gone over. -/
structure Listener.KeepsPace (L : Listener StateName τ) (input : Text)
    (I : Scanner → Text → τ → Prop) : Prop where
  quiet : L.Quiet
  hears : ∀ {c : Context StateName} {g signal a text b text'}, c.input = input →
    Scanner.Hears c.location c.character? c.active signal a text b text' → I a text g →
      I b text' (L.hear signal c g).gathered
  gap : ∀ {text d g}, isGap d = true → input[text.length]? = some d → I .outside text g →
    I .outside (text ++ [d]) g

/-- A quiet listener keeps pace, whatever it gathers. -/
theorem Listener.Quiet.keepsPace (quiet : L.Quiet) (input : Text) :
    L.KeepsPace input fun _ _ _ => True :=
  ⟨quiet, fun _ _ _ => trivial, fun _ _ _ => trivial⟩

/-! ## Sessions abreast of the scanner -/

/-- The session is poised, and what has been gathered is as it should be for the scanner and the
text that has been gone over. -/
structure Session.Abreast (I : Scanner → Text → τ → Prop) (f : Footing) (location : Nat)
    (error : Option FormatError) (entered : List (StateName × Nat)) (scanner : Scanner)
    (text : Text) (s : Session StateName τ) : Prop extends
    s.Poised f location error entered where
  kept : I scanner text s.gathered

namespace Session.Abreast

open Machine Scanner

variable {f : Footing} {location place place' : Nat} {error : Option FormatError}
  {x y : StateName} {entered outer : List (StateName × Nat)} {s : Session StateName τ}
  {F : Fault → Session StateName τ → Prop} {a b : Scanner} {text text' : Text}

/-- What the listener hears in such a session. -/
abbrev Told (f : Footing) (location : Nat) (entered : List (StateName × Nat)) :=
  Hears location (f.character? location) (entered.map Prod.fst)

/-! ### The pieces -/

theorem opening (h : s.Abreast I f location error entered a text)
    (full : f.settings.maxDepth ≤ entered.length →
      F (.format (.nestingTooDeep f.settings.maxDepth location)) s) :
    Ends F (fun _ t => t.Abreast I f location error ((x, location) :: entered) a text)
      (opening grammar x) s := by
  refine .opening (fun {stack} hp => ?_) fun hfull => ?_
  · have hroom : ¬ f.settings.maxDepth ≤ entered.length := by
      rw [← h.limit_eq, ← h.depth]
      unfold Stack.push at hp
      split at hp
      · cases hp
      · assumption
    rw [Context.markValue_eq, Stack.eq_of_push hp]
    refine ⟨⟨h.footing_eq, h.location_eq, h.error_eq, h.limit_eq, ?_, fun _ => ?_⟩, h.kept⟩
    · show s.context.frameFor x (grammar x) :: s.context.stack.frames = _
      rw [Context.frameFor, h.escapesEnabled, h.expressionsEnabled, h.location_eq, h.frames_eq]
      rfl
    · rw [List.length_cons]
      omega
  · rw [h.limit_eq, h.depth] at hfull
    rw [h.limit_eq, h.location_eq]
    exact full hfull

theorem closing (h : s.Abreast I f location error ((x, place) :: outer) a text) :
    Ends F (fun _ t => t.Abreast I f location error outer a text) closing s := by
  have hframes := h.frames_eq
  refine .closing ?_ fun {frame stack} hp => ?_
  · rw [Context.active, hframes]
    exact List.cons_ne_nil _ _
  · have hlimit := h.limit_eq
    rw [Stack.eq_of_pop hp] at hframes hlimit
    rw [Context.unlockValue_eq]
    refine ⟨⟨h.footing_eq, h.location_eq, h.error_eq, hlimit, (List.cons.inj hframes).2,
      fun _ => ?_⟩, h.kept⟩
    have hroom := h.room (List.cons_ne_nil _ _)
    rw [List.length_cons] at hroom
    omega

variable (pace : L.KeepsPace f.line.substituted I)
include pace

theorem tell {signal : Signal StateName} (h : s.Abreast I f location error entered a text)
    (accepted : ∀ {c g}, (L.hear signal c g).verdict = .accept)
    (told : Told f location entered signal a text b text') :
    Ends F (fun _ t => t.Abreast I f location error entered b text') (tell L signal) s := by
  refine .tell (fun _ => ?_) (fun hv => ?_) fun hv => ?_
  · have hinput : s.context.input = f.line.substituted :=
      congrArg (fun f => f.line.substituted) h.footing_eq
    have hhears : Hears s.context.location s.context.character? s.context.active signal a text
        b text' := by
      rw [h.location_eq, h.character?, h.active]
      exact told
    exact ⟨⟨h.footing_eq, h.location_eq, h.error_eq, h.limit_eq, h.frames_eq, h.room⟩,
      pace.hears hinput hhears h.kept⟩
  · cases accepted.symm.trans hv
  · cases accepted.symm.trans hv

/-! ### Actions -/

section

variable {Q : Session StateName τ → Prop} {n : Nat}

theorem content (h : s.Abreast I f location error entered a text)
    (told : Told f location entered .content a text b text')
    (next : ∀ t, t.Abreast I f location error entered b text' → Q t) :
    Ends F (fun _ => Q) (actUpTo grammar L (n + 1) .content) s :=
  (h.tell pace pace.quiet.content told).mono (fun _ _ hF => hF) fun _ t ht => next t ht

/-- A state is entered, and goes on with its first action. -/
theorem enter (hx : x.readsArguments = true) (h : s.Abreast I f location error entered a text)
    (full : f.settings.maxDepth ≤ entered.length → ∀ t,
      F (.format (.nestingTooDeep f.settings.maxDepth location)) t)
    (told : Told f location ((x, location) :: entered) (.entered x) a text b text')
    (next : ∀ t, t.Abreast I f location error ((x, location) :: entered) b text' →
      Ends F (fun _ => Q) (actUpTo grammar L n (grammar x).onEnter) t) :
    Ends F (fun _ => Q) (actUpTo grammar L (n + 1) (.enter x)) s := by
  show Ends F _ (enterBy grammar L (actUpTo grammar L n) x) s
  rw [enterBy_eq]
  exact (h.opening fun hfull => full hfull s).bind fun _ t ht =>
    (ht.tell pace (pace.quiet.entered hx) told).bind fun _ u hu => next u hu

/-- A state is left, and the one below goes on. -/
theorem leave (hx : x.readsArguments = true)
    (h : s.Abreast I f location error ((x, place) :: outer) a text)
    (told : Told f location ((x, place) :: outer) (.leaving x) a text b text')
    (next : ∀ t, t.Abreast I f location error outer b text' →
      Ends F (fun _ => Q) (returnBy grammar (actUpTo grammar L (n + 1))) t) :
    Ends F (fun _ => Q) (actUpTo grammar L (n + 2) .leave) s := by
  obtain ⟨frame, hframe, rfl, -⟩ := h.frame?
  refine Ends.discard (p := leaveBy grammar L (actUpTo grammar L (n + 1))) ?_
  rw [leaveBy_eq]
  refine .read ?_
  rw [hframe]
  have hclose : Ends F (fun _ => Q) (closeBy grammar L (actUpTo grammar L (n + 1))) s := by
    unfold closeBy
    rw [frame_bind_eq]
    refine .read ?_
    rw [hframe]
    exact (h.tell pace (pace.quiet.leaving hx) told).bind fun _ t ht =>
      ht.closing.bind fun _ u hu => next u hu
  dsimp only
  rw [onLeave_grammar]
  exact hclose.bind fun _ _ ht => .pure ht

/-- The state below goes on. -/
theorem leave_onto (hx : x.readsArguments = true)
    (h : s.Abreast I f location error ((x, place) :: (y, place') :: outer) a text)
    (told : Told f location ((x, place) :: (y, place') :: outer) (.leaving x) a text b text')
    (next : ∀ t, t.Abreast I f location error ((y, place') :: outer) b text' →
      Ends F (fun _ => Q) (actUpTo grammar L (n + 1) (grammar y).onReturn) t) :
    Ends F (fun _ => Q) (actUpTo grammar L (n + 2) .leave) s := by
  refine h.leave pace hx told fun t ht => ?_
  obtain ⟨frame, hframe, rfl, -⟩ := ht.frame?
  refine .read ?_
  rw [hframe]
  exact next t ht

theorem contentAndLeave (h : s.Abreast I f location error entered a text)
    (told : Told f location entered .content a text b text')
    (next : ∀ t, t.Abreast I f location error entered b text' →
      Ends F (fun _ => Q) (actUpTo grammar L (n + 1) .leave) t) :
    Ends F (fun _ => Q) (actUpTo grammar L (n + 1) .contentAndLeave) s :=
  (h.tell pace pace.quiet.content told).bind fun _ t ht => next t ht

end
end Session.Abreast
end

end CommandLine
