/-
# `CommandLine.Proofs.Offsets` — events come in order and point at what they name

The offsets of the events of a line never decrease, and each is the place of a character of the line
as it reads after substitution; for a separator or a delimiter it is that very character
(`offsets_in_order`).

An event is reported when the state of its part is left, so it comes later than its offset, and
several states can be left on one character.  What orders the events nevertheless is that no event
is reported while a token is being read:

    a token starts     its start is the cursor, and every event so far is before it   (`Pending`)
    a token ends       its events stand between its start and the cursor              (`Charts`)
    other events       stand at the cursor, and no token is being read                (`isFrame`)

While a character is handled the bound is the cursor; before the next one and at the end of the line
it is the place before.  What is substituted stands from the cursor on, so what the events point at
stays (`Charted.agree`).
-/
import CommandLine.Proofs.Order
import CommandLine.Proofs.Safety
import CommandLine.Proofs.Watching

namespace CommandLine

/-! ## Where events stand -/

namespace Event

/-- Where the part starts that the event reports. -/
def offset? : Event → Option Int
  | format _ | parsed _ => none
  | rootNode i | parentNode i | nodeType i _ | nodeTypeNameSeparator i | nodeName i _
  | nodeTypeOrName i _ | nodeSeparator i | operationSeparator i | operationName i _
  | argumentName i _ | nameValueSeparator i | argument _ _ i _ | argumentSeparator i
  | propertyListStart i | propertyListEnd i | outputTarget i _ | headerListStart i
  | headerListEnd i | headerName i _ | header _ _ i | headerSeparator i => some i

/-- The event can point at the character. -/
def pointsAt : Event → Char → Bool
  | rootNode _, d | nodeSeparator _, d => d == '/'
  | nodeTypeNameSeparator _, d | nameValueSeparator _, d => d == '='
  | operationSeparator _, d => d == ':'
  | argumentSeparator _, d => Text.isGap d || d == ','
  | propertyListStart _, d => d == '('
  | propertyListEnd _, d => d == ')'
  | headerListStart _, d => d == '{'
  | headerListEnd _, d => d == '}'
  | headerSeparator _, d => d == ';'
  | outputTarget _ _, d => d == '>'
  | _, _ => true

end Event

/-- The offset is that of a character of the text, not after `last`, which is accepted. -/
def Marks (text : Text) (last : Int) (accepts : Char → Bool) (offset : Int) : Prop :=
  offset ≤ last ∧ ∃ n : Nat, offset = n ∧ ∃ d, text[n]? = some d ∧ accepts d = true

namespace Marks

variable {text other : Text} {last later offset : Int} {accepts accepts' : Char → Bool}

theorem imp (h : Marks text last accepts offset) (hle : last ≤ later)
    (haccepts : ∀ d, accepts d = true → accepts' d = true) : Marks text later accepts' offset := by
  obtain ⟨hlast, n, hn, d, hd, hacc⟩ := h
  exact ⟨Int.le_trans hlast hle, n, hn, d, hd, haccepts d hacc⟩

theorem mono (h : Marks text last accepts offset) (hle : last ≤ later) :
    Marks text later accepts offset := h.imp hle fun _ => id

theorem of_le (h : Marks text last accepts offset) (hle : offset ≤ later) :
    Marks text later accepts offset := ⟨hle, h.2⟩

/-- A text that is the same up to the bound. -/
theorem agree (h : Marks text last accepts offset)
    (hagree : ∀ n : Nat, (n : Int) ≤ last → other[n]? = text[n]?) :
    Marks other last accepts offset := by
  obtain ⟨hlast, n, rfl, d, hd, hacc⟩ := h
  exact ⟨hlast, n, rfl, d, (hagree n hlast).trans hd, hacc⟩

end Marks

namespace Event

/-- The events are in order, between two places, and point at what they name. -/
structure InOrder (text : Text) (first last : Int) (events : List Event) : Prop where
  sorted : (events.filterMap offset?).Pairwise (· ≤ ·)
  marked : ∀ e ∈ events, ∀ i ∈ e.offset?, first ≤ i ∧ Marks text last e.pointsAt i

namespace InOrder

variable {text other : Text} {first middle last later : Int} {events reports : List Event}
  {e : Event} {i : Int}

theorem nil : InOrder text first last [] := ⟨.nil, fun _ he => absurd he List.not_mem_nil⟩

theorem single (hi : e.offset? = some i) (hfirst : first ≤ i) (hi' : Marks text last e.pointsAt i) :
    InOrder text first last [e] where
  sorted := by
    rw [List.filterMap_cons_some hi]
    exact List.pairwise_singleton _ _
  marked f hf j hj := by
    obtain rfl := List.mem_singleton.1 hf
    obtain rfl := Option.some.inj (hi.symm.trans hj)
    exact ⟨hfirst, hi'⟩

/-- An event without an offset can stand anywhere. -/
theorem unplaced (hi : e.offset? = none) : InOrder text first last [e] where
  sorted := by
    rw [List.filterMap_cons_none hi]
    exact .nil
  marked f hf j hj := by
    obtain rfl := List.mem_singleton.1 hf
    cases hi.symm.trans hj

/-- An event without an offset can come last. -/
theorem concat_unplaced (h : InOrder text first last events) (hi : e.offset? = none) :
    InOrder text first last (events ++ [e]) where
  sorted := by
    rw [List.filterMap_append, List.filterMap_cons_none hi, List.filterMap_nil, List.append_nil]
    exact h.sorted
  marked f hf j hj := by
    rcases List.mem_append.1 hf with hf | hf
    · exact h.marked f hf j hj
    · obtain rfl := List.mem_singleton.1 hf
      cases hi.symm.trans hj

theorem mono (h : InOrder text middle last events) (hfirst : first ≤ middle)
    (hlast : last ≤ later) : InOrder text first later events :=
  ⟨h.sorted, fun e he i hi =>
    ⟨Int.le_trans hfirst (h.marked e he i hi).1, (h.marked e he i hi).2.mono hlast⟩⟩

/-- What comes after the middle can follow what comes before it. -/
theorem append (h : InOrder text first middle events) (h' : InOrder text middle last reports)
    (hfirst : first ≤ middle) (hlast : middle ≤ last) :
    InOrder text first last (events ++ reports) where
  sorted := by
    rw [List.filterMap_append, List.pairwise_append]
    refine ⟨h.sorted, h'.sorted, fun i hi j hj => ?_⟩
    obtain ⟨e, he, hei⟩ := List.mem_filterMap.1 hi
    obtain ⟨f, hf, hfj⟩ := List.mem_filterMap.1 hj
    exact Int.le_trans (h.marked e he i hei).2.1 (h'.marked f hf j hfj).1
  marked e he := by
    rcases List.mem_append.1 he with he | he
    · exact (h.mono (Int.le_refl _) hlast).marked e he
    · exact (h'.mono hfirst (Int.le_refl _)).marked e he

theorem agree (h : InOrder text first last events)
    (hagree : ∀ n : Nat, (n : Int) ≤ last → other[n]? = text[n]?) :
    InOrder other first last events :=
  ⟨h.sorted, fun e he i hi => ⟨(h.marked e he i hi).1, (h.marked e he i hi).2.agree hagree⟩⟩

end InOrder
end Event

/-! ## What a reader reports -/

/-- The character under the cursor, if there is one, is the last one of the text that matters. -/
def Context.Faces (c : Context StateName) (text : Text) (last : Int) : Prop :=
  ∀ d ∈ c.character?, (c.location : Int) = last ∧ text[c.location]? = some d

theorem Context.Faces.marks {c : Context StateName} {text : Text} {last : Int} {d : Char}
    {accepts : Char → Bool} (h : c.Faces text last) (hd : c.character? = some d)
    (haccepts : accepts d = true) : Marks text last accepts c.location :=
  ⟨Int.le_of_eq (h d hd).1, c.location, rfl, d, (h d hd).2, haccepts⟩

namespace Reading

open Event

variable {α β : Type} {text : Text} {first last : Int}

/-- The work that a program leaves, whether or not it finds fault. -/
def work (p : Reading α) (w : Reader.Work) : Reader.Work :=
  match p w with
  | .ok _ w' | .error _ w' => w'

/-- What the program reports is placed between `first` and `last`. -/
def Charts (text : Text) (first last : Int) (p : Reading α) (w : Reader.Work) : Prop :=
  ∃ reports, (work p w).reports = w.reports ++ reports ∧
    InOrder text first last (reports.map Prod.fst)

namespace Charts

variable {w w' : Reader.Work} {e : Event} {i : Int} {k : α → Reading β}

theorem silent {p : Reading α} (h : (work p w).reports = w.reports) :
    Charts text first last p w := ⟨[], by rw [h, List.append_nil], .nil⟩

theorem pure (a : α) : Charts text first last (pure a) w := silent rfl

/-- A part that reports nothing. -/
theorem after {p : Reading α} {a : α} (hp : p w = .ok a w') (hreports : w'.reports = w.reports)
    (hk : Charts text first last (k a) w') : Charts text first last (p >>= k) w := by
  have hwork : work (p >>= k) w = work (k a) w' := by
    rw [work, bind_apply, hp]
    rfl
  rw [Charts, hwork, ← hreports]
  exact hk

theorem fail (fault : OperationFault) : Charts text first last (fail fault >>= k) w := silent rfl

theorem report (hi : e.offset? = some i) (hfirst : first ≤ i)
    (hmarks : Marks text last e.pointsAt i) : Charts text first last (report e) w := ⟨[(e, w.reader)], rfl, .single hi hfirst hmarks⟩

/-- An event, and then those that come after it. -/
theorem reporting {k : Unit → Reading β} (hi : e.offset? = some i) (hfirst : first ≤ i)
    (hmarks : Marks text last e.pointsAt i)
    (hk : Charts text i last (k ()) { w with reports := w.reports ++ [(e, w.reader)] }) :
    Charts text first last (Reading.report e >>= k) w := by
  obtain ⟨reports, hreports, hordered⟩ := hk
  refine ⟨(e, w.reader) :: reports, ?_, ?_⟩
  · rw [show work (Reading.report e >>= k) w = work (k ()) _ by
      rw [work, bind_apply, report_apply]; rfl, hreports, List.append_assoc]
    rfl
  · have hfirst' : InOrder text first i [e] :=
      .single hi hfirst (hmarks.of_le (Int.le_refl i))
    exact hfirst'.append hordered hfirst hmarks.1

/-- An event at the start of a token. -/
theorem naming {k : Unit → Reading β} {accepts : Char → Bool} (start : Marks text last accepts i)
    (hi : e.offset? = some i) (hpoints : ∀ d, accepts d = true → e.pointsAt d = true)
    (hk : i ≤ last → Charts text i last (k ()) { w with reports := w.reports ++ [(e, w.reader)] }) :
    Charts text i last (Reading.report e >>= k) w :=
  reporting hi (Int.le_refl _) (start.imp (Int.le_refl _) hpoints) (hk start.1)

/-- Changing the token in the end reports nothing. -/
theorem mapping {p : Reading α} (hp : Charts text first last p w) (change : Tokens → Tokens) :
    Charts text first last (p >>= fun _ => mapTokens change) w := by
  have hwork : (work (p >>= fun _ => mapTokens change) w).reports = (work p w).reports := by
    rw [work, work, bind_apply]
    cases p w <;> rfl
  rw [Charts, hwork]
  exact hp

theorem ite {c : Prop} [Decidable c] {p q : Reading α} (hp : c → Charts text first last p w)
    (hq : ¬ c → Charts text first last q w) :
    Charts text first last (if c then p else q) w := by
  split
  · next h => exact hp h
  · next h => exact hq h

section

variable {c : Context StateName} {r : Reader.Work} (faces : c.Faces text last)

/-! ### At the cursor -/

include faces

/-- An event at the cursor, if there is a character that it can point at. -/
theorem here {d : Char} (hd : c.character? = some d) (hi : e.offset? = some ↑c.location)
    (hpoints : e.pointsAt d = true) (hfirst : first ≤ last) :
    Charts text first last (Reading.report e) w :=
  .report hi ((faces d hd).1 ▸ hfirst) (faces.marks hd hpoints)

theorem reportOn {d : Char} (hi : e.offset? = some ↑c.location) (hpoints : e.pointsAt d = true)
    (hfirst : first ≤ last) : Charts text first last (reportOn c d e) w :=
  .ite (fun hd => here faces hd hi hpoints hfirst) fun _ => .pure _

theorem argumentGap (hfirst : first ≤ last) : Charts text first last (argumentGap c) w := by
  refine .ite (fun hgap => ?_) fun _ => .pure _
  obtain ⟨d, hd, hgap⟩ := (Option.any_eq_true _ _).1 hgap
  exact here faces hd rfl (Bool.or_eq_true_iff.2 (.inl hgap)) hfirst

/-- The gap that ends an argument. -/
theorem gapAndClear (hfirst : first ≤ last) :
    Charts text first last (do
      Reading.argumentGap c
      mapTokens Tokens.clear) w := mapping (argumentGap faces hfirst) _

end
end Charts

/-! ### Tokens that end -/

section

variable {c : Context StateName} {w : Reader.Work} {t : Tokens} {accepts : Char → Bool}

/-- The `=` of a token that has a name stands after its start. -/
def Separated (text : Text) (last : Int) (t : Tokens) : Prop :=
  t.name.isSome = true → ∃ i, t.separator = some i ∧ t.start ≤ i ∧ Marks text last (· == '=') i

open Charts

theorem takeValue_eq (c : Context StateName) (w : Reader.Work) :
    takeValue c w = .ok (if c.atEnd && c.error.any FormatError.isNotFinished then
        Text.trimStart w.reader.tokens.buffer else Text.trim w.reader.tokens.buffer)
      { w with reader := { w.reader with tokens := { w.reader.tokens with buffer := [] } } } := rfl

theorem charts_nameWithoutValue (start : Marks text last accepts t.start)
    (separated : Separated text last t) (name : Text) (hname : t.name.isSome = true)
    {k : Unit → Reading α}
    (hk : ∀ {i w}, t.start ≤ i → i ≤ last → Charts text i last (k ()) w) :
    Charts text t.start last (nameWithoutValue t.start name t.separator >>= k) w := by
  obtain ⟨i, hi, hle, hmarks⟩ := separated hname
  rw [nameWithoutValue, hi, bind_assoc]
  exact naming start rfl (fun _ _ => rfl) fun _ => reporting rfl hle hmarks (hk hle hmarks.1)

variable (faces : c.Faces text last) (start : Marks text last accepts w.reader.tokens.start)
include faces start

theorem charts_nodeDone : Charts text w.reader.tokens.start last (nodeDone c) w := by
  have named {e : Event} (hi : e.offset? = some w.reader.tokens.start)
      (he : ∀ d, e.pointsAt d = true) {w' : Reader.Work} :
      Charts text w.reader.tokens.start last (Reading.report e) w' :=
    Charts.report hi (Int.le_refl _) (start.imp (Int.le_refl _) fun d _ => he d)
  refine after (take_apply w) rfl (after (tokens_apply _) rfl (.ite (fun heq => ?_) fun _ => ?_))
  · exact naming start rfl (fun _ _ => rfl) fun hle =>
      reporting rfl ((faces _ heq).1 ▸ hle) (faces.marks heq rfl) (silent rfl)
  · refine after (get_apply _) rfl (.ite (fun _ => ?_) fun _ => ?_)
    · exact after (update_apply _ _) rfl
        (.ite (fun _ => named rfl fun _ => rfl) fun _ => .pure _)
    · exact .ite (fun _ => named rfl fun _ => rfl) fun _ =>
        .ite (fun _ => named rfl fun _ => rfl) fun _ => .pure _

omit faces in
theorem charts_operationNameDone :
    Charts text w.reader.tokens.start last operationNameDone w :=
  after (take_apply w) rfl (.ite (fun _ => after (tokens_apply _) rfl
    (.report rfl (Int.le_refl _) (start.imp (Int.le_refl _) fun _ _ => rfl))) fun _ => .pure _)

omit faces in
theorem charts_outputTargetDone (htarget : ∀ d, accepts d = true → d = '>') :
    Charts text w.reader.tokens.start last outputTargetDone w := by
  exact after (take_apply w) rfl (after (tokens_apply _) rfl
    (naming start rfl (fun d hd => beq_iff_eq.2 (htarget d hd)) fun _ => silent rfl))

theorem charts_argumentDone (separated : Separated text last w.reader.tokens) :
    Charts text w.reader.tokens.start last (argumentDone c) w := by
  refine after (tokens_apply w) rfl ?_
  split
  · exact after (take_apply _) rfl
      (naming start rfl (fun _ _ => rfl) fun hle => gapAndClear faces hle)
  · exact after (take_apply _) rfl
      (naming start rfl (fun _ _ => rfl) fun hle => gapAndClear faces hle)
  · next hname _ =>
    refine charts_nameWithoutValue start separated _ ?_ fun _ hle => gapAndClear faces hle
    rw [hname]
    rfl

theorem charts_argumentValueDone :
    Charts text w.reader.tokens.start last (argumentValueDone c) w := by
  refine .ite (fun _ => ?_) fun _ => .pure _
  exact after (take_apply _) rfl (after (tokens_apply _) rfl
    (naming start rfl (fun _ _ => rfl) fun hle => gapAndClear faces hle))

theorem charts_propertyDone (separated : Separated text last w.reader.tokens) :
    Charts text w.reader.tokens.start last (propertyDone c) w := by
  have rest {first : Int} {w' : Reader.Work} (hfirst : first ≤ last) :
      Charts text first last (do
        Reading.reportOn c ',' (.argumentSeparator c.location)
        mapTokens Tokens.clear) w' := mapping (Charts.reportOn faces rfl rfl hfirst) _
  have flag (name value : Text) {w' : Reader.Work} :
      Charts text w.reader.tokens.start last (do
        reportFlag c w.reader.tokens.start name value
        Reading.reportOn c ',' (.argumentSeparator c.location)
        mapTokens Tokens.clear) w' := by
    unfold reportFlag
    split
    · exact naming start rfl (fun _ _ => rfl) rest
    · exact after (pure_apply _ _) rfl (rest start.1)
  refine after (tokens_apply w) rfl ?_
  split
  · refine after (take_apply _) rfl ?_
    split
    · exact .ite (fun _ => Charts.fail _) fun _ => flag _ _
    · exact flag _ _
  · exact Charts.fail _
  · next name _ hname =>
    refine after (takeValue_eq c _) rfl (.ite (fun _ => ?_) fun _ => ?_)
    · refine charts_nameWithoutValue start separated _ ?_ fun _ hle => rest hle
      rw [hname]
      rfl
    · exact naming start rfl (fun _ _ => rfl) rest

theorem charts_headerDone : Charts text w.reader.tokens.start last (headerDone c) w := by
  have rest {first : Int} {w' : Reader.Work} (hfirst : first ≤ last) :
      Charts text first last (do
        Reading.reportOn c ';' (.headerSeparator c.location)
        mapTokens Tokens.clear) w' := mapping (Charts.reportOn faces rfl rfl hfirst) _
  have named (name value : Text) {w' : Reader.Work} :
      Charts text w.reader.tokens.start last (do
        if name.isEmpty then Reading.fail (.headerNameMissing w.reader.tokens.start)
        if value.isEmpty then Reading.report (.headerName w.reader.tokens.start name)
        else Reading.report (.header name value w.reader.tokens.start)
        Reading.reportOn c ';' (.headerSeparator c.location)
        mapTokens Tokens.clear) w' := by
    refine .ite (fun _ => Charts.fail _) fun _ => .ite (fun _ => ?_) fun _ => ?_
    · exact naming start rfl (fun _ _ => rfl) rest
    · exact naming start rfl (fun _ _ => rfl) rest
  refine after (tokens_apply w) rfl ?_
  split
  · exact after (take_apply _) rfl (named _ _)
  · exact after (takeValue_eq c _) rfl (named _ _)

end
end Reading

/-! ## Tokens that are being read -/

namespace StateName

/-- A token is being read while the state is active. -/
def isToken : StateName → Bool
  | node | commandName | operationName | argument | property | header | outputTarget
  | argumentValue => true
  | _ => false

/-- The state holds whole tokens and is no part of one. -/
def isFrame : StateName → Bool
  | command | address | operationSeparator | propertyList | headers | headerList
  | argumentList => true
  | _ => false

/-- The state never stands inside a token. -/
def isOuter (x : StateName) : Bool :=
  x.isFrame || x == nodeSeparator || x.isToken && x != argumentValue

theorem isFrame_of_mem_holds {x y : StateName} (held : x ∈ y.holds) (hx : x.isOuter = true) :
    y.isFrame = true := by
  have table : ∀ y ∈ all, ∀ x ∈ y.holds, x.isOuter = true → y.isFrame = true := by decide
  exact table y (mem_all y) x held hx

theorem isOuter_of_isFrame {x : StateName} (hx : x.isFrame = true) : x.isOuter = true := by
  rw [isOuter, hx]
  rfl

theorem isToken_of_isFrame {x : StateName} (hx : x.isFrame = true) : x.isToken = false := by
  cases x <;> first | rfl | cases hx

end StateName

open StateName

section

variable {b x y : StateName} {outer : List StateName}

/-- Around a state that never stands inside a token there are only frames. -/
theorem Nested.isFrame_of_isOuter (h : Nested b (x :: outer)) (hx : x.isOuter = true) :
    ∀ y ∈ outer, y.isFrame = true := by
  induction outer generalizing x with
  | nil => exact fun _ hy => absurd hy List.not_mem_nil
  | cons z rest ih =>
    cases h with
    | inside held hrest =>
      have hz := isFrame_of_mem_holds held hx
      intro y hy
      rcases List.mem_cons.1 hy with rfl | hy
      · exact hz
      · exact ih hrest (isOuter_of_isFrame hz) y hy

end

/-- The token `t` of a state is being read: it started at a character, and all events so far are
before that. -/
structure Pending (text : Text) (last : Int) (x : StateName) (t : Tokens) (events : List Event) :
    Prop where
  start : Marks text last (fun d => x != .outputTarget || d == '>') t.start
  ordered : Event.InOrder text (-1) t.start events
  separated : x = .argument ∨ x = .property → Reading.Separated text last t

/-- What a reader has gathered fits the active states: the events are in order, and so is the token
that is being read. -/
structure Charted (text : Text) (last : Int) (active : List StateName)
    (g : Reader × List Event) : Prop where
  floor : -1 ≤ last
  ordered : Event.InOrder text (-1) last g.2
  pending : ∀ x ∈ active, x.isToken = true → Pending text last x g.1.tokens g.2

/-- What the reader is after a signal. -/
def Reader.next (signal : Signal StateName) (c : Context StateName) (r : Reader) : Reader :=
  (r.hear signal c).1.reader

section

open Reader

variable {text other : Text} {last later : Int} {b x y : StateName} {active outer : List StateName}
  {c : Context StateName} {r r' : Reader} {events : List Event} {signal : Signal StateName}
  {t t' : Tokens}

theorem Reader.work_eq :
    (r.hear signal c).1 = Reading.work (Reading.signal c signal) { reader := r } := by
  unfold hear Reading.work
  cases Reading.signal c signal { reader := r } <;> rfl

/-- What a signal adds is in order if its program reports in order. -/
theorem Reader.inOrder_added (signal : Signal StateName) {first : Int}
    (h : Reading.Charts text first last (Reading.signal c signal) { reader := r }) :
    Event.InOrder text first last (added signal c r) := by
  obtain ⟨reports, hreports, hordered⟩ := h
  rw [added, work_eq, hreports]
  exact hordered

/-- The places of the token are what matters. -/
structure Tokens.Alike (t t' : Tokens) : Prop where
  start_eq : t'.start = t.start
  name_eq : t'.name = t.name
  separator_eq : t'.separator = t.separator

theorem Pending.mono (h : Pending text last x t events) (hle : last ≤ later) :
    Pending text later x t events where
  start := h.start.mono hle
  ordered := h.ordered
  separated hx hname := by
    obtain ⟨i, hi, hstart, hmarks⟩ := h.separated hx hname
    exact ⟨i, hi, hstart, hmarks.mono hle⟩

theorem Pending.agree (h : Pending text last x t events)
    (hagree : ∀ n : Nat, (n : Int) ≤ last → other[n]? = text[n]?) :
    Pending other last x t events where
  start := h.start.agree hagree
  ordered := h.ordered.agree fun n hn => hagree n (Int.le_trans hn h.start.1)
  separated hx hname := by
    obtain ⟨i, hi, hstart, hmarks⟩ := h.separated hx hname
    exact ⟨i, hi, hstart, hmarks.agree hagree⟩

theorem Pending.alike (h : Pending text last x t events) (ht : t.Alike t') :
    Pending text last x t' events where
  start := ht.start_eq ▸ h.start
  ordered := ht.start_eq ▸ h.ordered
  separated hx := by
    have := h.separated hx
    rwa [Reading.Separated, ← ht.start_eq, ← ht.name_eq, ← ht.separator_eq] at this

namespace Charted

theorem mono {g : Reader × List Event} (h : Charted text last active g) (hle : last ≤ later) :
    Charted text later active g :=
  ⟨Int.le_trans h.floor hle, h.ordered.mono (Int.le_refl _) hle, fun x hx htoken =>
    (h.pending x hx htoken).mono hle⟩

theorem agree {g : Reader × List Event} (h : Charted text last active g)
    (hagree : ∀ n : Nat, (n : Int) ≤ last → other[n]? = text[n]?) : Charted other last active g :=
  ⟨h.floor, h.ordered.agree hagree, fun x hx htoken => (h.pending x hx htoken).agree hagree⟩

/-- A signal that reports nothing and leaves the token alone. -/
theorem keep (h : Charted text last active (r, events)) (hadded : added signal c r = [])
    (ht : r.tokens.Alike (next signal c r).tokens)
    (hsub : ∀ y ∈ outer, y.isToken = true → y ∈ active) :
    Charted text last outer (next signal c r, events ++ added signal c r) := by
  rw [hadded, List.append_nil]
  exact ⟨h.floor, h.ordered, fun y hy htoken => (h.pending y (hsub y hy htoken) htoken).alike ht⟩

/-- No token is being read among frames. -/
theorem of_frames (hfloor : -1 ≤ last) (hordered : Event.InOrder text (-1) last events)
    (hframes : ∀ y ∈ active, y.isFrame = true) : Charted text last active (r, events) :=
  ⟨hfloor, hordered, fun y hy htoken => by
    cases (isToken_of_isFrame (hframes y hy)).symm.trans htoken⟩

/-- A state that is no token is entered among frames. -/
theorem enters_outer (h : Charted text last outer (r, events)) (hnested : Nested b (x :: outer))
    (hx : x.isOuter = true) (htoken : x.isToken = false)
    (hcharts : Reading.Charts text last last (Reading.entered c x) { reader := r }) :
    Charted text last (x :: outer) (next (.entered x) c r, events ++ added (.entered x) c r) := by
  have hordered := h.ordered.append (inOrder_added (.entered x) hcharts) h.floor
    (Int.le_refl last)
  have hframes := of_frames (r := next (.entered x) c r) h.floor hordered
    (hnested.isFrame_of_isOuter hx)
  refine ⟨h.floor, hordered, fun y hy hytoken => ?_⟩
  rcases List.mem_cons.1 hy with rfl | hy
  · cases htoken.symm.trans hytoken
  · exact hframes.pending y hy hytoken

/-- A token starts at the cursor. -/
theorem enters_token (h : Charted text last outer (r, events)) (faces : c.Faces text last)
    {d : Char} (hd : c.character? = some d) (htarget : x = .outputTarget → d = '>')
    (hframes : ∀ y ∈ outer, y.isFrame = true) (hadded : added (.entered x) c r = [])
    (hstart : (next (.entered x) c r).tokens.start = c.location)
    (hname : (next (.entered x) c r).tokens.name = none) :
    Charted text last (x :: outer) (next (.entered x) c r, events ++ added (.entered x) c r) := by
  rw [hadded, List.append_nil]
  refine ⟨h.floor, h.ordered, fun y hy htoken => ?_⟩
  rcases List.mem_cons.1 hy with rfl | hy
  · refine ⟨?_, ?_, fun _ hnamed => ?_⟩
    · rw [hstart]
      refine faces.marks hd ?_
      by_cases hx : y = .outputTarget
      · rw [htarget hx]
        simp
      · simp [hx]
    · rw [hstart, (faces d hd).1]
      exact h.ordered
    · rw [hname] at hnamed
      cases hnamed
  · cases (isToken_of_isFrame (hframes y hy)).symm.trans htoken

/-- The name of a token ends at the cursor, with an `=` unless the token is a header. -/
theorem enters_separator (h : Charted text last outer (r, events)) (faces : c.Faces text last)
    {d : Char} (hd : c.character? = some d) (htoken : x.isToken = false)
    (hequals : .argument ∈ outer ∨ .property ∈ outer → d = '=')
    (hadded : added (.entered x) c r = [])
    (hstart : (next (.entered x) c r).tokens.start = r.tokens.start)
    (hseparator : (next (.entered x) c r).tokens.separator = some c.location) :
    Charted text last (x :: outer) (next (.entered x) c r, events ++ added (.entered x) c r) := by
  rw [hadded, List.append_nil]
  refine ⟨h.floor, h.ordered, fun y hy hytoken => ?_⟩
  rcases List.mem_cons.1 hy with rfl | hy
  · cases htoken.symm.trans hytoken
  · have hpending := h.pending y hy hytoken
    refine ⟨hstart ▸ hpending.start, hstart ▸ hpending.ordered, fun hnamed _ => ?_⟩
    refine ⟨c.location, hseparator, ?_, faces.marks hd ?_⟩
    · rw [hstart, (faces d hd).1]
      exact hpending.start.1
    · rw [beq_iff_eq]
      rcases hnamed with rfl | rfl
      · exact hequals (.inl hy)
      · exact hequals (.inr hy)

end Charted

/-! ## What each signal keeps -/

/-- The innermost state can be entered from the one below it on the character. -/
def Opens (character : Option Char) : List StateName → Prop
  | x :: y :: _ => ∃ d, character = some d ∧ y.opensOn x d = true
  | _ => True

section

variable (faces : c.Faces text last) (hactive : c.active = x :: outer)
  (hnested : Nested b (x :: outer)) (hb : b ≠ .headers)

/-- A state that is not at the bottom is entered from the one that holds it. -/
theorem Nested.opened {character : Option Char} (h : Nested b (x :: outer))
    (hopens : Opens character (x :: outer)) (hroot : x.isRoot = false) :
    ∃ y rest d, outer = y :: rest ∧ x ∈ y.holds ∧ Nested b (y :: rest) ∧ character = some d ∧
      y.opensOn x d = true := by
  obtain ⟨y, rest, rfl, held, hy⟩ := h.holder hroot
  obtain ⟨d, hd, hopen⟩ := hopens
  exact ⟨y, rest, d, rfl, held, hy, hd, hopen⟩

theorem Nested.ne_headers (h : Nested b (x :: outer)) (hb : b ≠ .headers) : x ≠ .headers := by
  rintro rfl
  cases h with
  | bottom root => exact hb rfl
  | @inside _ y _ held => exact absurd held (by cases y <;> decide)

theorem Reading.isPositional_of_active (h : c.active = x :: y :: outer) :
    Reading.isPositional c = (y != .nameValueSeparator) := by
  rw [Context.active] at h
  unfold Reading.isPositional
  rcases hframes : c.stack.frames with _ | ⟨first, _ | ⟨second, rest⟩⟩
  · rw [hframes] at h
    cases h
  · rw [hframes] at h
    cases h
  · rw [hframes] at h
    obtain rfl : second.state = y := (List.cons.inj (List.cons.inj h).2).1
    rfl

/-- The value of an argument is a token of its own unless a name stands before it. -/
theorem Reader.hear_argumentValue {positional : Bool}
    (hpositional : Reading.isPositional c = positional) :
    (r.hear (.entered .argumentValue) c).1 =
      let t := bif positional then Tokens.startAt c.location else r.tokens
      { reader := { r with tokens := { t with valueStart := some c.location } } } := by
  rw [work_eq, Reading.signal, Reading.entered, hpositional]
  cases positional <;> rfl

include faces hactive hnested hb

/-- What is reported when a state is entered stands at the cursor. -/
theorem Reading.charts_entered (hopens : Opens c.character? (x :: outer))
    (hx : x.isOuter = true) (htoken : x.isToken = false) {w : Reader.Work} :
    Reading.Charts text last last (Reading.entered c x) w := by
  cases x with
  | command => exact ⟨[(.format w.reader.format, w.reader)], rfl, .unplaced rfl⟩
  | nodeSeparator =>
    obtain ⟨y, rest, d, -, -, -, hd, hopen⟩ := hnested.opened hopens rfl
    refine .after (Reading.update_apply _ _) rfl (.after (Reading.get_apply _) rfl (.ite ?_ ?_))
    · exact fun _ => .here faces hd rfl hopen (Int.le_refl _)
    · exact fun _ => .here faces hd rfl hopen (Int.le_refl _)
  | operationSeparator =>
    obtain ⟨y, rest, d, -, -, -, hd, hopen⟩ := hnested.opened hopens rfl
    exact .after (Reading.update_apply _ _) rfl (.here faces hd rfl hopen (Int.le_refl _))
  | propertyList =>
    obtain ⟨y, rest, d, -, -, -, hd, hopen⟩ := hnested.opened hopens rfl
    exact .here faces hd rfl hopen (Int.le_refl _)
  | headerList =>
    obtain ⟨y, rest, d, -, -, hy, hd, hopen⟩ := hnested.opened hopens rfl
    refine .here faces hd rfl ?_ (Int.le_refl _)
    rw [opensOn, beq_false_of_ne (hy.ne_headers hb), Bool.false_or] at hopen
    exact hopen
  | argumentList =>
    refine .ite (fun hdepth => ?_) fun _ => .pure _
    rw [Machine.depth_of_active hactive] at hdepth
    cases outer with
    | nil => exact absurd hdepth (Nat.lt_irrefl _)
    | cons y rest =>
      obtain ⟨d, hd, hopen⟩ := hopens
      refine .here faces hd rfl ?_ (Int.le_refl _)
      exact Bool.or_eq_true_iff.2 (.inl hopen)
  | address | headers => exact .silent rfl
  | _ => first | exact absurd hx (by decide) | exact absurd htoken (by decide)

omit hb in
/-- A value starts a token, unless it belongs to the argument whose name stands before it. -/
theorem Charted.enters_argumentValue (hx : x = .argumentValue)
    (h : Charted text last outer (r, events)) (hopens : Opens c.character? (x :: outer)) :
    Charted text last (x :: outer) (next (.entered x) c r, events ++ added (.entered x) c r) := by
  subst hx
  obtain ⟨y, rest, d, rfl, held, hy, hd, -⟩ := hnested.opened hopens rfl
  have hhear := Reader.hear_argumentValue (r := r) (Reading.isPositional_of_active hactive)
  cases y with
  | argumentList =>
    refine h.enters_token faces hd (fun hx => by cases hx) (fun z hz => ?_) ?_ ?_ ?_
    · rcases List.mem_cons.1 hz with rfl | hz
      · rfl
      · exact hy.isFrame_of_isOuter rfl z hz
    · rw [added, hhear]
      rfl
    · rw [next, hhear]
      rfl
    · rw [next, hhear]
      rfl
  | nameValueSeparator =>
    obtain ⟨rest, rfl, -⟩ := hy.holder_eq (y := argument) rfl (by decide)
    have hadded : added (.entered argumentValue) c r = [] := by
      rw [added, hhear]
      rfl
    have halike : r.tokens.Alike (next (.entered argumentValue) c r).tokens := by
      rw [next, hhear]
      exact ⟨rfl, rfl, rfl⟩
    rw [hadded, List.append_nil]
    refine ⟨h.floor, h.ordered, fun z hz htoken => ?_⟩
    rcases List.mem_cons.1 hz with rfl | hz
    · have hargument := (h.pending argument (by simp) rfl).alike halike
      exact ⟨hargument.start, hargument.ordered, fun hz => by simp at hz⟩
    · exact (h.pending z hz htoken).alike halike
  | _ => exact absurd held (by decide)

/-- Entering a state keeps the events and the token in order. -/
theorem Charted.enters (h : Charted text last outer (r, events))
    (hopens : Opens c.character? (x :: outer)) :
    Charted text last (x :: outer) (next (.entered x) c r, events ++ added (.entered x) c r) := by
  have around (hx : x.isOuter = true) (htoken : x.isToken = false) :=
    h.enters_outer hnested hx htoken
      (Reading.charts_entered faces hactive hnested hb hopens hx htoken)
  have starting (hroot : x.isRoot = false) (hx : x.isOuter = true) (hne : x ≠ .outputTarget)
      (hadded : added (.entered x) c r = [])
      (hstart : (next (.entered x) c r).tokens.start = c.location)
      (hname : (next (.entered x) c r).tokens.name = none) :
      Charted text last (x :: outer) (next (.entered x) c r, events ++ added (.entered x) c r) := by
    obtain ⟨y, rest, d, -, -, -, hd, -⟩ := hnested.opened hopens hroot
    exact h.enters_token faces hd (fun hx => absurd hx hne) (hnested.isFrame_of_isOuter hx) hadded
      hstart hname
  cases x with
  | command | address | nodeSeparator | operationSeparator | propertyList | headers | headerList
  | argumentList => exact around rfl rfl
  | node | commandName | operationName | argument | property | header =>
    exact starting rfl rfl (by decide) rfl rfl rfl
  | outputTarget =>
    obtain ⟨y, rest, d, -, -, -, hd, hopen⟩ := hnested.opened hopens rfl
    exact h.enters_token faces hd (fun _ => beq_iff_eq.1 hopen)
      (hnested.isFrame_of_isOuter rfl) rfl rfl rfl
  | nameValueSeparator | propertyValue =>
    obtain ⟨y, rest, d, -, -, -, hd, hopen⟩ := hnested.opened hopens rfl
    exact h.enters_separator faces hd rfl (fun _ => beq_iff_eq.1 hopen) rfl rfl rfl
  | headerValue =>
    obtain ⟨y, rest, d, rfl, held, hy, hd, -⟩ := hnested.opened hopens rfl
    have hheader : y = header := by
      cases y <;> first | rfl | exact absurd held (by decide)
    subst hheader
    have hframes := hy.isFrame_of_isOuter rfl
    refine h.enters_separator faces hd rfl (fun hmem => ?_) rfl rfl rfl
    rcases hmem with hmem | hmem <;> rcases List.mem_cons.1 hmem with hmem | hmem
    all_goals first | exact absurd (hframes _ hmem) (by decide) | cases hmem
  | argumentValue => exact enters_argumentValue faces hactive hnested rfl h hopens
  | _ =>
    refine h.keep rfl ⟨rfl, rfl, rfl⟩ fun y hy htoken => ?_
    rcases List.mem_cons.1 hy with rfl | hy
    · exact absurd htoken (by decide)
    · exact hy

omit hactive hnested hb in
/-- The end of a list stands at the cursor. -/
theorem Reading.charts_leaving_list (hcloses : Closes c.character? x)
    (hx : x = propertyList ∨ x = headerList) {w : Reader.Work} :
    Reading.Charts text last last (Reading.leaving c x) w := by
  have closing {d : Char} {e : Event} (hd : ∀ d', x.closesOn d' = true → d' = d)
      (hi : e.offset? = some ↑c.location) (hpoints : e.pointsAt d = true) :
      Reading.Charts text last last (if !c.atEnd then Reading.report e else pure ()) w := by
    refine .ite (fun hinside => ?_) fun _ => .pure _
    rw [Bool.not_eq_true', Context.atEnd_eq_isNone, Option.isNone_eq_false_iff,
      Option.isSome_iff_exists] at hinside
    obtain ⟨d', hd'⟩ := hinside
    obtain rfl := hd d' (hcloses d' hd')
    exact .here faces hd' hi hpoints (Int.le_refl _)
  rcases hx with rfl | rfl
  · exact closing (fun d' h => beq_iff_eq.1 h) rfl rfl
  · exact closing (fun d' h => beq_iff_eq.1 h) rfl rfl

omit hb in
/-- A value ends its token, unless it belongs to the argument whose name stands before it. -/
theorem Charted.leaves_argumentValue (hx : x = .argumentValue)
    (h : Charted text last (x :: outer) (r, events)) :
    Charted text last outer (next (.leaving x) c r, events ++ added (.leaving x) c r) := by
  subst hx
  obtain ⟨y, rest, rfl, held, hy⟩ := hnested.holder rfl
  have hpositional := Reading.isPositional_of_active hactive
  cases y with
  | argumentList =>
    have hpending := h.pending argumentValue List.mem_cons_self rfl
    obtain ⟨hle, n, hn, -⟩ := hpending.start
    have hordered := hpending.ordered.append (inOrder_added (.leaving argumentValue)
      (Reading.charts_argumentValueDone faces hpending.start)) (by omega) hle
    refine .of_frames h.floor hordered fun z hz => ?_
    rcases List.mem_cons.1 hz with rfl | hz
    · rfl
    · exact hy.isFrame_of_isOuter rfl z hz
  | nameValueSeparator =>
    have hhear : (r.hear (.leaving argumentValue) c).1 = { reader := r } := by
      rw [work_eq, Reading.signal, Reading.leaving, Reading.argumentValueDone, hpositional]
      rfl
    refine h.keep ?_ ?_ fun z hz _ => List.mem_cons_of_mem _ hz
    · rw [added, hhear]
      rfl
    · rw [next, hhear]
      exact ⟨rfl, rfl, rfl⟩
  | _ => exact absurd held (by decide)

omit hb in
/-- Leaving a state keeps the events and the token in order. -/
theorem Charted.leaves (h : Charted text last (x :: outer) (r, events))
    (hcloses : Closes c.character? x) :
    Charted text last outer (next (.leaving x) c r, events ++ added (.leaving x) c r) := by
  have ending (hx : x.isOuter = true) {first : Int}
      (hordered : Event.InOrder text (-1) first events) (hfloor : -1 ≤ first) (hfirst : first ≤ last)
      (hcharts : Reading.Charts text first last (Reading.leaving c x) { reader := r }) :
      Charted text last outer (next (.leaving x) c r, events ++ added (.leaving x) c r) :=
    .of_frames h.floor (hordered.append (inOrder_added (.leaving x) hcharts) hfloor hfirst)
      (hnested.isFrame_of_isOuter hx)
  have token (htoken : x.isToken = true) (hx : x.isOuter = true)
      (hcharts : Pending text last x r.tokens events →
        Reading.Charts text r.tokens.start last (Reading.leaving c x) { reader := r }) :
      Charted text last outer (next (.leaving x) c r, events ++ added (.leaving x) c r) := by
    have hpending := h.pending x List.mem_cons_self htoken
    obtain ⟨hle, n, hn, -⟩ := hpending.start
    exact ending hx hpending.ordered (by omega) hle (hcharts hpending)
  cases x with
  | node => exact token rfl rfl fun hp => Reading.charts_nodeDone faces hp.start
  | commandName | operationName =>
    exact token rfl rfl fun hp => Reading.charts_operationNameDone hp.start
  | argument =>
    exact token rfl rfl fun hp =>
      Reading.charts_argumentDone faces hp.start (hp.separated (.inl rfl))
  | property =>
    exact token rfl rfl fun hp =>
      Reading.charts_propertyDone faces hp.start (hp.separated (.inr rfl))
  | header => exact token rfl rfl fun hp => Reading.charts_headerDone faces hp.start
  | outputTarget =>
    exact token rfl rfl fun hp => Reading.charts_outputTargetDone hp.start fun d hd =>
      beq_iff_eq.1 hd
  | propertyList | headerList =>
    exact ending rfl h.ordered h.floor (Int.le_refl _)
      (Reading.charts_leaving_list faces hcloses (by simp))
  | argumentValue => exact leaves_argumentValue faces hactive hnested rfl h
  | _ => exact h.keep rfl ⟨rfl, rfl, rfl⟩ fun y hy _ => List.mem_cons_of_mem _ hy

end

/-- A signal about the current state keeps the events and the token in order. -/
theorem Charted.stays (h : Charted text last active (r, events)) (hstill : signal.isStill = true) :
    Charted text last active (next signal c r, events ++ added signal c r) := by
  cases signal with
  | content | itemEnd | nameEnd => exact h.keep rfl ⟨rfl, rfl, rfl⟩ fun _ hy _ => hy
  | entered x => cases hstill
  | leaving x => cases hstill

end

/-! ## Whole runs -/

namespace Machine

open Reader

/-- The place of the character under the cursor, and at the end of the line the place before. -/
def reach (f : Footing) (location : Nat) : Int :=
  location + (f.character? location).toList.length - 1

/-- A reader that collects all events. -/
abbrev collector : Listener StateName (Reader × List Event) := listener Handler.collecting

/-- What can be told: states are entered and left on the characters that they stand for. -/
def onItsCharacter (b : StateName) (character : Option Char) :
    Signal StateName → List StateName → Prop
  | .entered _, active => Nested b active ∧ Opens character active
  | .leaving x, active => Nested b active ∧ Closes character x
  | _, active => Nested b active

/-- The events that have been reported are in order. -/
def Reported (s : Session StateName (Reader × List Event)) : Prop :=
  ∃ last, Event.InOrder s.context.input (-1) last s.gathered.2

section

variable {b : StateName} {character : Option Char} {f : Footing} {location : Nat}
  {last : Int} {active within : List StateName} {s : Session StateName (Reader × List Event)}

theorem guides_onItsCharacter : Guides b true true character (onItsCharacter b character) where
  leaving _ _ hcloses h := ⟨h, hcloses⟩
  arguments {d outer} hd hgap h := by
    refine ⟨h, ?_⟩
    cases outer with
    | nil => trivial
    | cons y rest => exact ⟨d, hd, hgap⟩
  entered _ hd hopen h := ⟨h, _, hd, hopen⟩
  content h := h
  itemEnd h := h
  nameEnd h := h

/-- The session stands at a character, and up to `last` its events and its token are in order. -/
abbrev StandsInOrder (f : Footing) (location : Nat) (last : Int) (within active : List StateName)
    (s : Session StateName (Reader × List Event)) : Prop :=
  s.Stands (fun _ => Charted f.line.substituted last within) f location active

theorem reported_of_stands {J : List StateName → Reader × List Event → Prop}
    (hs : s.Stands J f location active)
    (h : Event.InOrder f.line.substituted (-1) last s.gathered.2) : Reported s := by
  have hinput : s.context.input = f.line.substituted :=
    congrArg (fun f => f.line.substituted) hs.footing_eq
  exact ⟨_, hinput ▸ h⟩

theorem faces_of_stands {J : List StateName → Reader × List Event → Prop}
    (hs : s.Stands J f location active) :
    s.context.Faces f.line.substituted (reach f location) := by
  intro d hd
  have hd' : f.character? location = some d := (character?_of_stands hs).symm.trans hd
  rw [reach, hd', hs.location_eq]
  exact ⟨(Int.add_sub_cancel _ _).symm, hd'⟩

theorem hear_collector (signal : Signal StateName) (c : Context StateName)
    (g : Reader × List Event) :
    collector.hear signal c g =
      { gathered := (next signal c g.1, g.2 ++ added signal c g.1)
        verdict := match (g.1.hear signal c).2 with
          | some e => .refuse (.format e)
          | none => .accept } := by
  unfold collector listener
  dsimp only
  rw [deliver_collecting]
  cases (g.1.hear signal c).2 <;> rfl

/-- The collecting reader takes everything in, whether or not it finds fault. -/
theorem ends_tell_collector {J : List StateName → Reader × List Event → Prop}
    {signal : Signal StateName} (within : List StateName) (hs : s.Stands J f location active)
    (hkept : Charted f.line.substituted last within
      (next signal s.context s.gathered.1, s.gathered.2 ++ added signal s.context s.gathered.1)) :
    Ends (fun _ => Reported) (fun _ => StandsInOrder f location last within active)
      (tell collector signal) s := by
  have hhear := hear_collector signal s.context s.gathered
  have hheard : StandsInOrder f location last within active (heard collector signal s) := by
    refine ⟨hs.footing_eq, hs.location_eq, hs.active_eq, ?_⟩
    rw [heard, hhear]
    exact hkept
  refine .tell (fun _ => hheard) (fun {e} hv => ?_) fun _ =>
    reported_of_stands hheard hheard.kept.ordered
  rw [hhear] at hv
  cases he : (s.gathered.1.hear signal s.context).2 <;> (rw [he] at hv; cases hv)

variable (hb : b ≠ .headers) (hreads : ∀ active, ¬ ReadsItems b active)
include hb hreads

/-- On a character the events and the token that is being read stay in order. -/
theorem governs_collector (f : Footing) (location : Nat) :
    Governs grammar collector
      { guard := onItsCharacter b (f.character? location), reads := ReadsItems b }
      (f.character? location)
      (fun active => StandsInOrder f location (reach f location) active active)
      (fun _ => Reported) where
  active_eq hs := hs.active_eq
  character_eq hs := character?_of_stands hs
  literal _ _ := trivial
  enters {x outer s} hguard hs := by
    refine (ends_opening x hs (reported_of_stands hs hs.kept.ordered)).bind fun _ t ht => ?_
    refine ends_tell_collector _ ht
      (ht.kept.enters (faces_of_stands ht) ht.active_eq hguard.1 hb ?_)
    rw [character?_of_stands ht]
    exact hguard.2
  leaves {x outer s} hguard hs := by
    refine (ends_tell_collector _ hs (hs.kept.leaves (faces_of_stands hs) hs.active_eq hguard.1
      ?_)).bind fun _ t ht => ?_
    · rw [character?_of_stands hs]
      exact hguard.2
    · exact ends_closing ⟨ht.footing_eq, ht.location_eq, ht.active_eq, ht.kept⟩
  tells hstill _ hs := ends_tell_collector _ hs (hs.kept.stays hstill)
  complains delimiter _ hs :=
    ends_notFinished delimiter hs fun _ _ => reported_of_stands hs hs.kept.ordered
  places hread _ := absurd hread (hreads _)

omit hb hreads

/-- Between two characters: what has been gathered is in order up to the cursor. -/
structure Rests (b : StateName) (s : Session StateName (Reader × List Event)) : Prop where
  nested : Nested b s.context.active
  inside : s.context.location ≤ s.context.input.length
  charted : Charted s.context.input (s.context.location - 1) s.context.active s.gathered

theorem Rests.reported (h : Rests b s) : Reported s := ⟨_, h.charted.ordered⟩

/-- What is in order before the character, or before the end, is in order at it. -/
theorem Rests.stands (h : Rests b s) :
    StandsInOrder s.context.footing s.context.location
      (reach s.context.footing s.context.location) s.context.active s.context.active s := by
  refine ⟨rfl, rfl, rfl, h.charted.mono ?_⟩
  rw [reach]
  omega

/-- Text that is put in place from the cursor on leaves what comes before in order. -/
theorem Rests.prepare (h : Rests b s) : Ends (fun _ => Reported) (fun _ => Rests b) prepare s := by
  refine .read ?_
  split
  · have hresolve := resolve_apply s
    have hlater : Later s { s with context := s.context.resolve.1 } :=
      (Moves.of_resolveRounds (G := grammar) (L := collector) _ s).later h.inside
    have hlocation : s.context.resolve.1.location = s.context.location :=
      Context.location_resolveRounds _ _
    have hactive : s.context.resolve.1.active = s.context.active := by
      rw [Context.active, Context.resolve, Context.stack_resolveRounds]
      rfl
    have hrests : Rests b { s with context := s.context.resolve.1 } := by
      refine ⟨hactive ▸ h.nested, hlater.inside, ?_⟩
      show Charted s.context.resolve.1.input (s.context.resolve.1.location - 1)
        s.context.resolve.1.active s.gathered
      rw [hlocation, hactive]
      refine h.charted.agree fun n hn => ?_
      have hbefore : n < s.context.location := by omega
      have htake : (s.context.resolve.1.input.take s.context.location)[n]? =
          (s.context.input.take s.context.location)[n]? := congrArg (·[n]?) hlater.settled
      rwa [List.getElem?_take_of_lt hbefore, List.getElem?_take_of_lt hbefore] at htake
    cases he : s.context.resolve.2 with
    | none =>
      rw [he] at hresolve
      exact .of_ok hresolve hrests
    | some e =>
      rw [he] at hresolve
      exact .of_error hresolve hrests.reported
  · exact .pure h

include hb hreads

theorem Rests.handle (h : Rests b s) (hinside : s.context.atEnd = false) :
    Ends (fun _ => Reported) (fun _ => Rests b) (handle grammar collector) s := by
  obtain ⟨d, hd⟩ : ∃ d, s.context.footing.character? s.context.location = some d := by
    rw [Context.atEnd_eq_isNone, Option.isNone_eq_false_iff, Option.isSome_iff_exists] at hinside
    exact hinside
  have hdispatch := (governs_collector hb hreads _ _).dispatch
    (hd ▸ secure_dispatch guides_onItsCharacter h.nested (fun _ _ _ => rfl) (fun _ _ _ => rfl)
      fun _ hinner => hinner)
    h.stands
  refine Ends.bind hdispatch fun _ t ht => ?_
  obtain ⟨active, hnested, ht⟩ := ht
  have hinput : t.context.input = s.context.input :=
    congrArg (fun f => f.line.substituted) ht.footing_eq
  have hend : t.context.atEnd = false := by
    rw [← hinside, Context.atEnd, hinput, ht.location_eq]
    rfl
  have hadvance := advance_apply t
  rw [hend] at hadvance
  refine .of_ok hadvance ⟨ht.active_eq ▸ hnested, ?_, ?_⟩
  · rw [Context.atEnd, decide_eq_false_iff_not, Nat.not_le] at hend
    exact hend
  · have hreach : reach s.context.footing s.context.location = s.context.location := by
      rw [reach, hd]
      exact Int.add_sub_cancel _ _
    show Charted t.context.input (↑(t.context.location + 1) - 1) t.context.active t.gathered
    rw [hinput, ht.active_eq, ht.location_eq, Int.natCast_add, Int.natCast_one,
      Int.add_sub_cancel, ← hreach]
    exact ht.kept

/-- A run keeps the events in order, whether or not it goes through. -/
theorem carries_collector :
    Carries grammar collector (Rests b) (fun _ => Reported) Reported where
  prepares h := h.prepare
  handles h hinside := h.handle hb hreads hinside
  endless h _ := h.reported
  finishes {s} h hend := by
    rw [Context.atEnd_eq_isNone, Option.isNone_iff_eq_none] at hend
    have governs := governs_collector hb hreads s.context.footing s.context.location
    rw [show s.context.footing.character? s.context.location = none from hend] at governs
    refine (governs.finish (fun hnested => ⟨hnested, fun _ hd => by cases hd⟩) h.nested
      h.stands).mono (fun _ _ hF => hF) fun _ t ht => ?_
    obtain ⟨active, -, ht⟩ := ht
    exact reported_of_stands ht ht.kept.ordered

end

/-- The state that a command or a list of arguments starts in is entered before anything of the line
is read. -/
theorem ends_enter_first {entrance : Entrance} (hentrance : entrance ≠ .headers)
    (hs : StandsInOrder f location last [] [] s) :
    Ends (fun _ => Reported)
      (fun _ => StandsInOrder f location last [entrance.state] [entrance.state])
      (enter grammar collector entrance.state) s := by
  have hnested : Nested entrance.state [entrance.state] := .bottom entrance.isRoot_state
  have hfirst : (grammar entrance.state).onEnter = .skip := by
    cases entrance <;> rfl
  show Ends _ _ (enterBy grammar collector (act grammar collector) entrance.state) s
  rw [enterBy_eq, hfirst]
  refine (ends_opening _ hs (reported_of_stands hs hs.kept.ordered)).bind fun _ t ht => ?_
  refine (ends_tell_collector [entrance.state] ht ?_).bind fun _ u hu => .of_ok rfl hu
  cases entrance with
  | command => exact ht.kept.enters_outer hnested rfl rfl ⟨[(.format _, _)], rfl, .unplaced rfl⟩
  | arguments =>
    refine ht.kept.enters_outer hnested rfl rfl (.ite (fun hdepth => ?_) fun _ => .pure _)
    rw [depth_of_active ht.active_eq] at hdepth
    exact absurd hdepth (Nat.lt_irrefl 1)
  | headers => exact absurd rfl hentrance

/-- All events of a run are in order. -/
theorem reported_readFrom {entrance : Entrance} (hentrance : entrance ≠ .headers) (limit : Nat)
    (settings : Settings) (strict : Bool) (text : Text) :
    Ends (fun _ => Reported) (fun _ => Reported)
      (readFrom grammar collector entrance.state limit) (.start settings strict text ({}, [])) := by
  have hb : entrance.state ≠ .headers := by
    cases entrance with
    | headers => exact absurd rfl hentrance
    | _ => decide
  refine (carries_collector hb entrance.not_readsItems).readFrom limit ?_
  have hstart : StandsInOrder ⟨settings, strict, .ofText text⟩ 0 (-1) [] []
      (.start settings strict text ({}, [])) :=
    ⟨rfl, rfl, rfl, Int.le_refl _, .nil, fun _ hx => absurd hx List.not_mem_nil⟩
  refine (ends_enter_first hentrance hstart).mono (fun _ _ hF => hF) fun _ t ht => ?_
  have hinput : t.context.input = text := congrArg (fun f => f.line.substituted) ht.footing_eq
  refine ⟨ht.active_eq ▸ .bottom entrance.isRoot_state, ?_, ?_⟩
  · rw [ht.location_eq]
    exact Nat.zero_le _
  · rw [hinput, ht.location_eq, ht.active_eq]
    exact ht.kept

end Machine

/-! ## Lines -/

namespace Event

open Machine

/-- The line as it reads after all substitutions, when the last of its events is reported. -/
def substitutedLine (settings : Settings) (strict : Bool) (entrance : Entrance)
    (line : Option Text) : Text :=
  let text := line.getD []
  if Text.isBlankText text then text
  else
    (after (readFrom grammar collector entrance.state (positionLimit settings text))
      (.start settings strict text ({}, []))).context.input

theorem read_collector (settings : Settings) (strict : Bool) {entrance : Entrance}
    (hentrance : entrance ≠ .headers) (line : Option Text) :
    let run := grammar.read settings strict collector entrance.state line ({}, [])
    let text := substitutedLine settings strict entrance line
    (∃ last, InOrder text (-1) last run.1.2) ∧
      ∀ result, run.2 = .ok result → result.line.substituted = text := by
  unfold Graph.read substitutedLine
  dsimp only
  split
  · exact ⟨⟨0, .nil⟩, fun result h => by cases h; rfl⟩
  · have hrun := reported_readFrom hentrance (positionLimit settings (line.getD [])) settings strict
      (line.getD [])
    unfold Ends at hrun
    unfold Graph.readText
    split
    · next hread =>
      rw [hread] at hrun
      rw [after_of_ok hread]
      exact ⟨hrun, fun result h => by cases h; rfl⟩
    · next hread =>
      rw [hread] at hrun
      rw [after_of_error hread]
      exact ⟨hrun, fun result h => by cases h⟩

/-- The end of a line is no part of it. -/
theorem inOrder_ofLine (settings : Settings) (strict : Bool) {entrance : Entrance}
    (hentrance : entrance ≠ .headers) (line : Option Text) :
    let run := ofLine settings strict entrance line
    let text := substitutedLine settings strict entrance line
    (∃ last, InOrder text (-1) last run.1) ∧
      ∀ result, run.2 = .ok result → result.line.substituted = text := by
  have h := read_collector settings strict hentrance line
  dsimp only at h ⊢
  rw [ofLine_eq]
  revert h
  show (_ ∧ ∀ result, (grammar.read settings strict (Reader.listener Handler.collecting)
    entrance.state line ({}, [])).2 = .ok result → _) → _
  rcases grammar.read settings strict (Reader.listener Handler.collecting) entrance.state line
    ({}, []) with ⟨⟨reader, events⟩, fault | result⟩
  · exact id
  · rintro ⟨⟨last, hordered⟩, hline⟩
    exact ⟨⟨last, hordered.concat_unplaced rfl⟩, hline⟩

end Event

section

variable {η : Type} {handler : Handler η}

/-- The handler refuses nothing. -/
def Handler.Accepts (handler : Handler η) : Prop :=
  ∀ (event : Event) (gathered : η), (handler event gathered).2 = .ok ()

/-- What the handler gathers from some events, one after the other. -/
def Handler.fold (handler : Handler η) (events : List Event) (gathered : η) : η :=
  events.foldl (fun gathered event => (handler event gathered).1) gathered

theorem Reader.deliver_of_accepts (accepts : handler.Accepts) (reports : List (Event × Reader))
    (gathered : η) :
    deliver handler reports gathered = (handler.fold (reports.map Prod.fst) gathered, none) := by
  induction reports generalizing gathered with
  | nil => rfl
  | cons report rest ih =>
    obtain ⟨event, kept⟩ := report
    have hevent : handler event gathered = ((handler event gathered).1, .ok ()) :=
      Prod.ext rfl (accepts event gathered)
    rw [deliver, hevent]
    exact ih _

/-- A reader for a handler that refuses nothing goes along with the collecting one. -/
theorem Reader.shadows_collector (accepts : handler.Accepts) (gathered : η) :
    (listener handler).Shadows (fun g => (g.1, handler.fold g.2 gathered)) Machine.collector where
  hear signal c g := by
    rw [Machine.hear_collector]
    unfold listener
    dsimp only
    rw [deliver_of_accepts accepts, Handler.fold, Handler.fold, ← List.foldl_append]
    cases (g.1.hear signal c).2 <;> rfl
  place _ := rfl

/-- A handler that refuses nothing is told the events of the line, one after the other. -/
theorem readLine_of_accepts (accepts : handler.Accepts) (settings : Settings) (strict : Bool)
    (entrance : Entrance) (line : Option Text) (gathered : η) :
    readLine settings strict handler entrance line gathered =
      (handler.fold (Event.ofLine settings strict entrance line).1 gathered,
        (Event.ofLine settings strict entrance line).2) := by
  have h : grammar.read settings strict (Reader.listener handler) entrance.state line
      ({}, gathered) = _ :=
    Graph.read_shadowed grammar (Reader.shadows_collector accepts gathered) settings strict
      entrance.state line ({}, [])
  rw [Event.ofLine_eq]
  unfold readLine readWith
  rw [h]
  rcases grammar.read settings strict (Reader.listener Handler.collecting) entrance.state line
    ({}, []) with ⟨⟨reader, events⟩, fault | result⟩
  · rfl
  · have hparsed : handler (.parsed result) (handler.fold events gathered) =
        (handler.fold (events ++ [.parsed result]) gathered, .ok ()) := by
      refine Prod.ext ?_ (accepts _ _)
      rw [Handler.fold, Handler.fold, List.foldl_append]
      rfl
    dsimp only
    rw [hparsed]

end

namespace Event

/-- The offsets of the events of a line never decrease, and each is the place of a character of the
substituted line that the event can point at, whatever the settings, strictly and leniently, and
whether or not the line is read to its end.  These are the events that any handler is told that
refuses nothing. -/
theorem offsets_in_order (settings : Settings) (strict : Bool) {entrance : Entrance}
    (hentrance : entrance ≠ .headers) (line : Option Text) :
    let run := ofLine settings strict entrance line
    let text := substitutedLine settings strict entrance line
    (run.1.filterMap offset?).Pairwise (· ≤ ·) ∧
      (∀ e ∈ run.1, ∀ i ∈ e.offset?, ∃ n : Nat, i = n ∧
        ∃ d, text[n]? = some d ∧ e.pointsAt d = true) ∧
      (∀ result, run.2 = .ok result → result.line.substituted = text) ∧
      ∀ {η : Type} (handler : Handler η) (gathered : η), handler.Accepts →
        readLine settings strict handler entrance line gathered =
          (handler.fold run.1 gathered, run.2) := by
  obtain ⟨⟨last, hordered⟩, hline⟩ := inOrder_ofLine settings strict hentrance line
  exact ⟨hordered.sorted, fun e he i hi => (hordered.marked e he i hi).2.2, hline,
    fun _ gathered accepts => readLine_of_accepts accepts settings strict entrance line gathered⟩

/-- The settings of a line in which `$x` stands for an argument with a name. -/
def namedArgument : Settings :=
  { resolver := { variableValues := some [("x".toList, "-e f".toList)] } }

theorem offsets_in_order_of_replacement :
    (ofLine namedArgument true .command (some "/a=b:op(c) $x".toList)).1.filterMap offset? =
        [0, 1, 2, 3, 4, 5, 7, 8, 9, 10, 11, 13, 14] ∧
      ([0, 1, 2, 3, 4, 5, 7, 8, 9, 10, 11, 13, 14] : List Int).Pairwise (· ≤ ·) := by
  have hoffsets : (ofLine namedArgument true .command
      (some "/a=b:op(c) $x".toList)).1.filterMap offset? =
        [0, 1, 2, 3, 4, 5, 7, 8, 9, 10, 11, 13, 14] := by decide +kernel
  refine ⟨hoffsets, ?_⟩
  rw [← hoffsets]
  exact (offsets_in_order namedArgument true (by decide) _).1

end Event
end CommandLine
