/-
# `CommandLine.Proofs.Tokenization` — arguments are the tokens of their line

Reading a line of arguments loses nothing of it: the ranges of the arguments lie one after the
other in the line that is left after all substitutions, an argument is what stands in its range,
and all else is gaps and the output target (`Command.arguments_tokenize_line`).

That a text is laid with arguments and gaps, from its start on, is the relation `Tiles`; `Tokenized`
says what this means for the places of the arguments.  While a line is read the reader holds on to
the token that follows the tiles, and what its token spells depends on where the scanner stands:

    name         the text so far, without `=`
    separated    a name and `=`
    value        the text so far, after a name and `=` if there is one
    target       what follows `>`

This is what the reader keeps pace with (`Command.keepsPace`).  A line with substitutions is read
like the text that it ends as, so it is enough to know the runs in which nothing is replaced.
-/
import CommandLine.Proofs.Offsets
import CommandLine.Proofs.ScannedLines
import CommandLine.Proofs.Transparency
import CommandLine.Text.Offset

namespace CommandLine

open Text

/-! ## Arguments and their places -/

namespace Argument

/-- The argument says what the text says: a name, a value, or both with `=` between them. -/
def Spells (a : Argument) (raw : Text) : Prop :=
  match a.name, a.value with
  | none, some value => raw = value
  | some name, none => raw = name
  | some name, some value =>
    ∃ front, raw = front ++ '=' :: value ∧ '=' ∉ front ∧ trim front = name
  | none, none => False

/-- The offset lies in the range of the argument. -/
def Covers (a : Argument) (offset : Nat) : Prop := a.start ≤ offset ∧ offset < a.stop

end Argument

/-- The arguments of a line end at an offset: at the `>` before the output target, which is the
trimmed rest of the line, or at the end of the line if there is none. -/
def EndsArguments (input : Text) (target : Option Text) (stop : Nat) : Prop :=
  match target with
  | none => stop = input.length
  | some target => input[stop]? = some '>' ∧ target = trim (input.drop (stop + 1))

/-- The arguments and the output target are what the line says, with nothing but gaps around
them. -/
structure Tokenized (input : Text) (arguments : List Argument) (target : Option Text) : Prop where
  /-- The arguments are numbered. -/
  indexed : ∀ (i : Nat) (a : Argument), arguments[i]? = some a → a.index = i
  /-- Each has a range in the line that is not empty. -/
  inside : ∀ a ∈ arguments, 0 ≤ a.start ∧ a.start < a.stop ∧ a.stop ≤ input.length
  /-- The ranges are in the order of the arguments and do not overlap. -/
  ordered : arguments.Pairwise fun a b => a.stop ≤ b.start
  /-- An argument says what stands in its range. -/
  spelled : ∀ a ∈ arguments, a.Spells (input.between a.start a.stop)
  /-- Around the arguments there are gaps, up to the output target. -/
  around : ∃ stop, EndsArguments input target stop ∧ (∀ a ∈ arguments, a.stop ≤ stop) ∧
    ∀ k d, k < stop → input[k]? = some d → (∀ a ∈ arguments, ¬ a.Covers k) → isGap d = true

/-! ## Tiles -/

/-- The argument stands after a text and some other arguments, and says what stands there. -/
structure Argument.IsTile (a : Argument) (front raw : Text) (index : Nat) : Prop where
  spells : a.Spells raw
  start_eq : a.start = front.length
  stop_eq : a.stop = (front ++ raw).length
  index_eq : a.index = index

/-- From its start on the text is laid with gaps and with the arguments, one after the other. -/
inductive Tiles : Text → List Argument → Prop
  | nil : Tiles [] []
  | gap {text : Text} {arguments : List Argument} {d : Char} (h : Tiles text arguments)
    (hd : isGap d = true) : Tiles (text ++ [d]) arguments
  | argument {text raw : Text} {arguments : List Argument} {a : Argument}
    (h : Tiles text arguments) (hraw : raw ≠ []) (ha : a.IsTile text raw arguments.length) :
    Tiles (text ++ raw) (arguments ++ [a])

/-- An element of a list with one more is an element of the list or the new one. -/
theorem eq_of_getElem?_concat {α : Type} {l : List α} {x y : α} {i : Nat}
    (h : (l ++ [x])[i]? = some y) : l[i]? = some y ∨ i = l.length ∧ x = y := by
  rcases Nat.lt_or_ge i l.length with hlt | hge
  · rw [List.getElem?_append_left hlt] at h
    exact .inl h
  · rw [List.getElem?_append_right hge, List.getElem?_singleton] at h
    split at h
    · exact .inr ⟨by omega, Option.some.inj h⟩
    · cases h

namespace Tiles

variable {text : Text} {arguments : List Argument} {a : Argument}

/-- Each argument has its place in the text. -/
theorem exists_place (h : Tiles text arguments) (ha : a ∈ arguments) :
    ∃ front raw back index, text = (front ++ raw) ++ back ∧ raw ≠ [] ∧
      a.IsTile front raw index := by
  induction h with
  | nil => cases ha
  | @gap text arguments d h hd ih =>
    obtain ⟨front, raw, back, index, rfl, htile⟩ := ih ha
    exact ⟨front, raw, back ++ [d], index, List.append_assoc _ _ _, htile⟩
  | @argument text raw arguments b h hraw hb ih =>
    rcases List.mem_append.1 ha with ha | ha
    · obtain ⟨front, raw', back, index, rfl, htile⟩ := ih ha
      exact ⟨front, raw', back ++ raw, index, List.append_assoc _ _ _, htile⟩
    · obtain rfl := List.mem_singleton.1 ha
      exact ⟨text, raw, [], _, (List.append_nil _).symm, hraw, hb⟩

theorem stop_le (h : Tiles text arguments) (ha : a ∈ arguments) : a.stop ≤ text.length := by
  obtain ⟨front, raw, back, index, rfl, -, htile⟩ := h.exists_place ha
  rw [htile.stop_eq]
  exact Int.ofNat_le.2 (List.prefix_append _ _).length_le

theorem indexed (h : Tiles text arguments) {i : Nat} (hi : arguments[i]? = some a) :
    a.index = i := by
  induction h with
  | nil => cases hi
  | gap h hd ih => exact ih hi
  | @argument text raw arguments b h hraw hb ih =>
    rcases eq_of_getElem?_concat hi with hi | ⟨rfl, rfl⟩
    · exact ih hi
    · exact hb.index_eq

theorem ordered (h : Tiles text arguments) :
    arguments.Pairwise fun a b => a.stop ≤ b.start := by
  induction h with
  | nil => exact .nil
  | gap h hd ih => exact ih
  | @argument text raw arguments b h hraw hb ih =>
    refine List.pairwise_append.2 ⟨ih, List.pairwise_singleton _ _, fun a ha b' hb' => ?_⟩
    rw [List.mem_singleton.1 hb', hb.start_eq]
    exact h.stop_le ha

/-- What no argument covers is a gap. -/
theorem isGap_of_uncovered (h : Tiles text arguments) {k : Nat} {d : Char}
    (hd : text[k]? = some d) (huncovered : ∀ a ∈ arguments, ¬ a.Covers k) : isGap d = true := by
  induction h with
  | nil => cases hd
  | @gap text arguments e h he ih =>
    rcases eq_of_getElem?_concat hd with hd | ⟨-, rfl⟩
    · exact ih hd huncovered
    · exact he
  | @argument text raw arguments b h hraw hb ih =>
    rcases Nat.lt_or_ge k text.length with hlt | hge
    · rw [List.getElem?_append_left hlt] at hd
      exact ih hd fun a ha => huncovered a (List.mem_append_left _ ha)
    · -- here the last argument stands
      obtain ⟨hk, -⟩ := List.getElem?_eq_some_iff.1 hd
      refine absurd ⟨?_, ?_⟩ (huncovered b (List.mem_append_right _ List.mem_cons_self))
      · rw [hb.start_eq]
        exact Int.ofNat_le.2 hge
      · rw [hb.stop_eq]
        exact Int.ofNat_lt.2 hk

/-- A text that is laid with the arguments, up to where they end, says what they say. -/
theorem tokenized {rest : Text} {target : Option Text} (h : Tiles text arguments)
    (hends : EndsArguments (text ++ rest) target text.length) :
    Tokenized (text ++ rest) arguments target where
  indexed _ _ := h.indexed
  inside a ha := by
    obtain ⟨front, raw, back, index, rfl, hraw, htile⟩ := h.exists_place ha
    have hpos := List.length_pos_iff.2 hraw
    rw [htile.start_eq, htile.stop_eq]
    simp only [List.length_append]
    omega
  ordered := h.ordered
  spelled a ha := by
    obtain ⟨front, raw, back, index, rfl, -, htile⟩ := h.exists_place ha
    rw [htile.start_eq, htile.stop_eq, List.length_append, Int.natCast_add, between_natCast_add,
      List.append_assoc, List.append_assoc, List.drop_left, List.take_left]
    exact htile.spells
  around := by
    refine ⟨text.length, hends, fun a ha => h.stop_le ha, fun k d hk hd huncovered => ?_⟩
    rw [List.getElem?_append_left hk] at hd
    exact h.isGap_of_uncovered hd huncovered

end Tiles


/-! ## What a token spells -/

namespace Tokens

/-- What the token spells where the scanner stands, as far as it has been read. -/
inductive Spells : Tokens → Scanner → Text → Prop
  | name {t : Tokens} (hname : t.name = none) (hvalue : t.valueStart = none)
    (hequals : '=' ∉ t.buffer) : Spells t .name t.buffer
  | separated {t : Tokens} {front : Text} (hname : t.name = some (trim front))
    (hequals : '=' ∉ front) (hseparator : t.separator = some (t.start + front.length))
    (hvalue : t.valueStart = none) (hbuffer : t.buffer = []) :
    Spells t .separated (front ++ ['='])
  | value {t : Tokens} {opened : List OpenPart} {escaped : Bool} :
    Spells t (.value false opened escaped) t.buffer
  | namedValue {t : Tokens} {front : Text} {opened : List OpenPart} {escaped : Bool}
    (hname : t.name = some (trim front)) (hequals : '=' ∉ front)
    (hvalue : t.valueStart.isSome = true) :
    Spells t (.value true opened escaped) (front ++ '=' :: t.buffer)
  | target {t : Tokens} : Spells t .target ('>' :: t.buffer)

variable {t : Tokens} {scanner : Scanner} {raw : Text}

/-- A character that is content joins what the token spells. -/
theorem Spells.append {d : Char} (h : t.Spells scanner raw) (htakes : scanner.Takes d) :
    (t.append [d]).Spells scanner (raw ++ [d]) := by
  cases h with
  | name hname hvalue hequals =>
    refine .name (t := t.append [d]) hname hvalue fun hmem => ?_
    rcases List.mem_append.1 hmem with hmem | hmem
    · exact hequals hmem
    · exact htakes (List.mem_singleton.1 hmem).symm
  | separated => exact htakes.elim
  | value => exact .value (t := t.append [d])
  | namedValue hname hequals hvalue =>
    rw [List.append_assoc, List.cons_append]
    exact .namedValue (t := t.append [d]) hname hequals hvalue
  | target => exact .target (t := t.append [d])

/-- The parts of a value make no difference to what the token spells. -/
theorem Spells.value_congr {named escaped escaped' : Bool} {opened opened' : List OpenPart}
    (h : t.Spells (.value named opened escaped) raw) :
    t.Spells (.value named opened' escaped') raw := by
  cases h with
  | value => exact .value
  | namedValue hname hequals hvalue => exact .namedValue hname hequals hvalue

end Tokens

/-! ## What a command gains from a token -/

namespace Command

variable (c : Command)

@[simp] theorem arguments_withSeparator (separator : Separator) (index : Int) :
    (c.withSeparator separator index).arguments = c.arguments := rfl

@[simp] theorem outputTarget_withSeparator (separator : Separator) (index : Int) :
    (c.withSeparator separator index).outputTarget = c.outputTarget := rfl

@[simp] theorem arguments_withPart (index : Int) : (c.withPart index).arguments = c.arguments := rfl

@[simp] theorem outputTarget_withPart (index : Int) :
    (c.withPart index).outputTarget = c.outputTarget := rfl

/-- The argument that is read next. -/
def nextArgument (name value : Option Text) (start stop : Int) : Argument :=
  { name, value, start, stop, index := c.arguments.length, inPropertyList := c.inPropertyList }

@[simp] theorem arguments_addArgument (name value : Option Text) (start stop : Int) :
    (c.addArgument name value start stop).arguments =
      c.arguments ++ [c.nextArgument name value start stop] := rfl

@[simp] theorem outputTarget_addArgument (name value : Option Text) (start stop : Int) :
    (c.addArgument name value start stop).outputTarget = c.outputTarget := rfl

@[simp] theorem arguments_receiveArgument (name : Option Text) (value : Text) (start stop : Int) :
    (c.receiveArgument name value start stop).arguments =
      c.arguments ++ [c.nextArgument name (some value) start stop] := by
  unfold receiveArgument
  dsimp only
  split <;> rfl

@[simp] theorem outputTarget_receiveArgument (name : Option Text) (value : Text)
    (start stop : Int) :
    (c.receiveArgument name value start stop).outputTarget = c.outputTarget := by
  unfold receiveArgument
  dsimp only
  split <;> rfl

/-- A name with a separator after it has an empty value, which ends with the separator. -/
@[simp] theorem arguments_unvalued (name : Text) (start stop part index : Int) :
    (((c.addArgument (some name) none start stop).withPart part).receiveNameValueSeparator
      index).arguments =
        c.arguments ++ [c.nextArgument (some name) (some []) start (index + 1)] := by
  show List.modify (c.arguments ++ [_]) ((c.arguments ++ [_]).length - 1) _ = _
  rw [List.length_append, List.length_singleton, Nat.add_sub_cancel, Sketch.modify_concat]
  rfl

@[simp] theorem outputTarget_receiveNameValueSeparator (index : Int) :
    (c.receiveNameValueSeparator index).outputTarget = c.outputTarget := rfl

/-- The argument that a token with a name stands for when it ends at a location. -/
def argumentOf (t : Tokens) (location : Int) : Argument :=
  match t.name, t.valueStart with
  | none, _ => c.nextArgument (some t.buffer) none t.start (t.start + t.buffer.length)
  | some name, some _ => c.nextArgument (some name) (some t.buffer) t.start location
  | some name, none =>
    c.nextArgument (some name) (some []) t.start (t.separator.getD t.start + 1)

end Command

namespace Reader

variable (ctx : Context StateName) (r : Reader) (c : Command)

/-- What a reader and its command have gathered after a signal. -/
abbrev told (signal : Signal StateName) : Reader × Command :=
  ((listener Command.handler).hear signal ctx (r, c)).gathered

/-- The end of an argument with a name is reported as that argument. -/
theorem told_argument :
    (told ctx r c (.leaving .argument)).2.arguments =
        c.arguments ++ [c.argumentOf r.tokens ctx.location] ∧
      (told ctx r c (.leaving .argument)).2.outputTarget = c.outputTarget := by
  unfold told listener hear Reading.signal Reading.leaving Reading.argumentDone
    Reading.argumentGap Reading.nameWithoutValue Command.argumentOf
  simp only [Reading.bind_apply, Reading.tokens_apply]
  cases r.tokens.name <;> cases r.tokens.valueStart <;> cases ctx.character?.any isGap <;>
    simp [Reading.bind_apply, Reading.report_apply, Reading.mapTokens_apply, Reading.take_apply,
      Reader.deliver, Command.handler, Command.receive, Command.accepting]

variable {ctx}

/-- What has been gathered after a signal, from what the reader does and what it reports. -/
theorem told_of_run {signal : Signal StateName} {work : Work} {c' : Command}
    (hrun : Reading.signal ctx signal { reader := r } = .ok () work)
    (hdeliver : deliver Command.handler work.reports c = (c', none)) :
    told ctx r c signal = (work.reader, c') := by
  unfold told listener hear
  dsimp only
  rw [hrun]
  dsimp only
  rw [hdeliver]

/-- The list of arguments is no token. -/
theorem told_argumentList (ctx : Context StateName) :
    (told ctx r c (.entered .argumentList)).2.arguments = c.arguments ∧
      (told ctx r c (.entered .argumentList)).2.outputTarget = c.outputTarget := by
  have hrun : Reading.signal ctx (.entered .argumentList) { reader := r } =
      (if 1 < ctx.stack.depth then Reading.report (.argumentSeparator ctx.location)
        else pure ()) { reader := r } := rfl
  split at hrun
  · rw [told_of_run r c hrun rfl]
    exact ⟨rfl, rfl⟩
  · rw [told_of_run r c hrun rfl]
    exact ⟨rfl, rfl⟩

theorem isPositional_of_valueStack {named : Bool}
    (hactive : ctx.active = Scanner.valueStack named) :
    Reading.isPositional ctx = !named := by
  cases named with
  | false => exact Reading.isPositional_of_active hactive
  | true => exact Reading.isPositional_of_active hactive

/-- A value is a new token unless a name stands before it. -/
theorem told_entered_value {named : Bool} (hactive : ctx.active = Scanner.valueStack named) :
    told ctx r c (.entered .argumentValue) =
      let t := if named then r.tokens else Tokens.startAt ctx.location
      ({ r with tokens := { t with valueStart := some ctx.location } }, c) := by
  have hrun : Reading.signal ctx (.entered .argumentValue) { reader := r } = .ok ()
      { reader := { r with tokens :=
          { if named then r.tokens else Tokens.startAt ctx.location with
            valueStart := some ctx.location } } } := by
    rw [Reading.signal, Reading.entered, isPositional_of_valueStack hactive]
    cases named <;> rfl
  exact told_of_run r c hrun rfl

/-- The end of a value is not reported if a name stands before it. -/
theorem told_leaving_namedValue (hactive : ctx.active = Scanner.valueStack true) :
    told ctx r c (.leaving .argumentValue) = (r, c) := by
  have hrun : Reading.signal ctx (.leaving .argumentValue) { reader := r } =
      .ok () { reader := r } := by
    rw [Reading.signal, Reading.leaving, Reading.argumentValueDone,
      isPositional_of_valueStack hactive]
    rfl
  exact told_of_run r c hrun rfl

/-- The end of a value without a name is reported as an argument. -/
theorem told_leaving_value (hactive : ctx.active = Scanner.valueStack false) :
    (told ctx r c (.leaving .argumentValue)).2.arguments =
        c.arguments ++ [c.nextArgument none (some r.tokens.buffer) r.tokens.start ctx.location] ∧
      (told ctx r c (.leaving .argumentValue)).2.outputTarget = c.outputTarget := by
  have hpositional := isPositional_of_valueStack hactive
  unfold told listener hear Reading.signal Reading.leaving Reading.argumentValueDone
    Reading.argumentGap
  simp only [hpositional]
  cases ctx.character?.any isGap <;>
    simp [Reading.bind_apply, Reading.report_apply, Reading.mapTokens_apply, Reading.take_apply,
      Reading.tokens_apply, Reader.deliver, Command.handler, Command.receive, Command.accepting]

end Reader

/-! ## Keeping pace -/

section

open Scanner

variable {input text : Text} {r : Reader} {c : Command}

/-- What a reader and its command have gathered of the text that has been gone over: tiles, and
where an argument or the target is being read, the token after them, which starts with a character
that is no gap.  When the target is complete the line has come to its end. -/
inductive Gathers (input : Text) : Scanner → Text → Reader × Command → Prop
  | between {text : Text} {r : Reader} {c : Command} (htiles : Tiles text c.arguments)
    (htarget : c.outputTarget = none) : Gathers input outside text (r, c)
  | closed {front rest : Text} {r : Reader} {c : Command}
    (hend : input.length ≤ (front ++ '>' :: rest).length) (htiles : Tiles front c.arguments)
    (htarget : c.outputTarget = some (trim rest)) :
    Gathers input outside (front ++ '>' :: rest) (r, c)
  | within {scanner : Scanner} {front raw : Text} {r : Reader} {c : Command}
    (htiles : Tiles front c.arguments) (htarget : c.outputTarget = none)
    (hstart : r.tokens.start = front.length) (hspells : r.tokens.Spells scanner raw)
    (hfirst : raw ≠ [] ∨ ∃ d, input[front.length]? = some d ∧ isGap d = false) :
    Gathers input scanner (front ++ raw) (r, c)

namespace Gathers

/-- Where a character follows the target has not been read. -/
theorem tiles_of_next {d : Char} (h : Gathers input outside text (r, c))
    (hd : input[text.length]? = some d) : Tiles text c.arguments ∧ c.outputTarget = none := by
  cases h with
  | between htiles htarget => exact ⟨htiles, htarget⟩
  | closed hend _ _ =>
    obtain ⟨hlt, -⟩ := List.getElem?_eq_some_iff.1 hd
    exact absurd hlt (Nat.not_lt.2 hend)
  | within _ _ _ hspells _ => cases hspells

/-- Outside of tokens only the arguments and the target count. -/
theorem congr {r' : Reader} {c' : Command} (h : Gathers input outside text (r, c))
    (harguments : c'.arguments = c.arguments) (htarget : c'.outputTarget = c.outputTarget) :
    Gathers input outside text (r', c') := by
  cases h with
  | between htiles hnone => exact .between (harguments.symm ▸ htiles) (htarget.trans hnone)
  | closed hend htiles hsome =>
    exact .closed hend (harguments.symm ▸ htiles) (htarget.trans hsome)
  | within _ _ _ hspells _ => cases hspells

/-- A token starts after the tiles. -/
theorem start {d : Char} {scanner : Scanner} {t : Tokens}
    (h : Gathers input outside text (r, c)) (hd : input[text.length]? = some d)
    (hgap : isGap d = false) (hstart : t.start = text.length) (hspells : t.Spells scanner []) :
    Gathers input scanner text ({ r with tokens := t }, c) := by
  obtain ⟨htiles, htarget⟩ := h.tiles_of_next hd
  have hwithin : Gathers input scanner (text ++ []) ({ r with tokens := t }, c) :=
    .within htiles htarget hstart hspells (.inr ⟨d, hd, hgap⟩)
  rwa [List.append_nil] at hwithin

/-- The token goes on and spells more. -/
theorem append {scanner : Scanner} {d : Char} (h : Gathers input scanner text (r, c))
    (htakes : scanner.Takes d) :
    Gathers input scanner (text ++ [d]) ({ r with tokens := r.tokens.append [d] }, c) := by
  cases h with
  | between => exact htakes.elim
  | closed => exact htakes.elim
  | within htiles htarget hstart hspells hfirst =>
    rw [List.append_assoc]
    exact .within htiles htarget hstart (hspells.append htakes) 
      (.inl (List.append_ne_nil_of_right_ne_nil _ (List.cons_ne_nil _ _)))

/-- What the token spells stays, whatever parts of the value are open. -/
theorem value_congr {named escaped escaped' : Bool} {opened opened' : List OpenPart}
    (h : Gathers input (value named opened escaped) text (r, c)) :
    Gathers input (value named opened' escaped') text (r, c) := by
  cases h with
  | within htiles htarget hstart hspells hfirst =>
    exact .within htiles htarget hstart hspells.value_congr hfirst

/-- The name ends and the separator is taken. -/
theorem separate (h : Gathers input name text (r, c)) :
    Gathers input separated (text ++ ['='])
      ({ r with tokens := { r.tokens with buffer := [], name := some (trim r.tokens.buffer)
                                          separator := some text.length } }, c) := by
  cases h with
  | within htiles htarget hstart hspells hfirst =>
    cases hspells with
    | name hname hvalue hequals =>
      rw [List.append_assoc]
      refine .within htiles htarget hstart (.separated rfl hequals ?_ hvalue rfl)
        (.inl (List.append_ne_nil_of_right_ne_nil _ (List.cons_ne_nil _ _)))
      rw [hstart, List.length_append]
      rfl

/-- The value after a separator starts. -/
theorem startValue {location : Int} (h : Gathers input separated text (r, c)) :
    Gathers input (value true [] false) text
      ({ r with tokens := { r.tokens with valueStart := some location } }, c) := by
  cases h with
  | within htiles htarget hstart hspells hfirst =>
    refine .within htiles htarget hstart ?_ hfirst
    cases hspells with
    | @separated front hname hequals _ _ hbuffer =>
      have hraw : front ++ ['='] = front ++ '=' :: r.tokens.buffer := by rw [hbuffer]
      rw [hraw]
      exact .namedValue hname hequals rfl

/-- Nothing of the token is missing where a gap or the end of the line ends it. -/
theorem exists_token {scanner : Scanner} (h : Gathers input scanner text (r, c))
    (hscanner : scanner ≠ outside)
    (hgap : ∀ d, input[text.length]? = some d → isGap d = true) :
    ∃ front raw, text = front ++ raw ∧ raw ≠ [] ∧ Tiles front c.arguments ∧
      c.outputTarget = none ∧ r.tokens.start = front.length ∧ r.tokens.Spells scanner raw := by
  cases h with
  | between => exact absurd rfl hscanner
  | closed => exact absurd rfl hscanner
  | @within _ front raw _ _ htiles htarget hstart hspells hfirst =>
    refine ⟨front, raw, rfl, ?_, htiles, htarget, hstart, hspells⟩
    rintro rfl
    rcases hfirst with hraw | ⟨d, hd, hsolid⟩
    · exact hraw rfl
    · rw [List.append_nil] at hgap
      exact absurd ((hgap d hd).symm.trans hsolid) nofun

/-- A complete argument is a further tile. -/
theorem gain {a : Argument} {c' : Command} {r' : Reader} {front raw : Text}
    (htiles : Tiles front c.arguments) (htarget : c.outputTarget = none) (hraw : raw ≠ [])
    (htile : a.IsTile front raw c.arguments.length)
    (harguments : c'.arguments = c.arguments ++ [a]) (htarget' : c'.outputTarget = c.outputTarget) :
    Gathers input outside (front ++ raw) (r', c') := by
  refine .between ?_ (htarget'.trans htarget)
  rw [harguments]
  exact htiles.argument hraw htile

end Gathers

/-- A complete token with a name spells its argument. -/
theorem Command.isTile_argumentOf {t : Tokens} {scanner : Scanner} {front raw : Text}
    {location : Nat} (h : t.Spells scanner raw) (hstart : t.start = front.length)
    (hlocation : location = (front ++ raw).length)
    (hscanner : scanner = name ∨ scanner = separated ∨ scanner = value true [] false) :
    (c.argumentOf t location).IsTile front raw c.arguments.length := by
  unfold Command.argumentOf
  cases h with
  | name hname hvalue hequals =>
    rw [hname, hstart]
    refine ⟨rfl, rfl, ?_, rfl⟩
    rw [List.length_append, Int.natCast_add]
    rfl
  | @separated before hname hequals hseparator hvalue hbuffer =>
    rw [hname, hvalue, hseparator, hstart]
    refine ⟨⟨before, rfl, hequals, rfl⟩, rfl, ?_, rfl⟩
    rw [← List.append_assoc, List.length_append, List.length_append, Int.natCast_add,
      Int.natCast_add]
    rfl
  | value => rcases hscanner with h | h | h <;> cases h
  | @namedValue before _ _ hname hequals hvalue =>
    obtain ⟨start, hsome⟩ := Option.isSome_iff_exists.1 hvalue
    rw [hname, hsome]
    exact ⟨⟨before, rfl, hequals, rfl⟩, hstart, congrArg Nat.cast hlocation, rfl⟩
  | target => rcases hscanner with h | h | h <;> cases h

/-- The reader of a command keeps pace with the scanner. -/
theorem Command.keepsPace (input : Text) :
    (Reader.listener Command.handler).KeepsPace input (Gathers input) where
  quiet := Reader.quiet_listener Command.acceptsRest_handler
  hears := by
    rintro ctx ⟨r, c⟩ signal a text b text' hinput hhears h
    have hnext {location : Nat} (hlocation : ctx.location = location) :
        ctx.character? = input[location]? := by
      rw [← hlocation, ← hinput]
      rfl
    show Gathers input b text' (Reader.told ctx r c signal)
    cases hhears with
    | list =>
      obtain ⟨harguments, htarget⟩ := Reader.told_argumentList r c ctx
      exact h.congr harguments htarget
    | name hlocation hd =>
      have hdash := (hnext hlocation).symm.trans hd
      exact h.start hdash rfl (t := Tokens.startAt ctx.location) (congrArg Nat.cast hlocation)
        (.name rfl rfl List.not_mem_nil)
    | target hlocation hd =>
      obtain ⟨htiles, htarget⟩ := h.tiles_of_next ((hnext hlocation).symm.trans hd)
      exact .within (r := { r with tokens := Tokens.startAt ctx.location }) htiles htarget
        (congrArg Nat.cast hlocation) .target (.inl (List.cons_ne_nil _ _))
    | value hlocation hd hgap hactive =>
      rw [Reader.told_entered_value r c hactive]
      exact h.start ((hnext hlocation).symm.trans hd) hgap (congrArg Nat.cast hlocation) .value
    | separator hlocation hd =>
      have hseparate := h.separate
      rw [← hlocation] at hseparate
      exact hseparate
    | namedValue hactive =>
      rw [Reader.told_entered_value r c hactive]
      exact h.startValue
    | part delimiter => cases delimiter <;> exact h.value_congr
    | escape => exact h.value_congr
    | @content _ _ d hd htakes =>
      have hcharacter : ctx.character = [d] := congrArg Option.toList hd
      show Gathers input _ _ ({ r with tokens := r.tokens.append ctx.character }, c)
      rw [hcharacter]
      exact h.append htakes
    | leavesPart o =>
      obtain ⟨delimiter, start⟩ := o
      cases delimiter <;> exact h.value_congr
    | leavesEscape => exact h.value_congr
    | leavesValue hlocation hgap hactive =>
      rw [hnext hlocation] at hgap
      obtain ⟨front, raw, rfl, hraw, htiles, htarget, hstart, hspells⟩ := h.exists_token nofun hgap
      obtain ⟨harguments, htarget'⟩ := Reader.told_leaving_value r c hactive
      cases hspells with
      | value =>
        have hspells : (c.nextArgument none (some r.tokens.buffer) r.tokens.start
          ctx.location).Spells r.tokens.buffer := rfl
        exact Gathers.gain htiles htarget hraw
          ⟨hspells, hstart, congrArg Nat.cast hlocation, rfl⟩ harguments htarget'
    | leavesNamedValue hactive =>
      rw [Reader.told_leaving_namedValue r c hactive]
      exact h
    | leavesSeparator => exact h
    | leavesName hlocation hgap hscanner =>
      rw [hnext hlocation] at hgap
      have houtside : a ≠ outside := by rcases hscanner with rfl | rfl | rfl <;> nofun
      obtain ⟨front, raw, rfl, hraw, htiles, htarget, hstart, hspells⟩ :=
        h.exists_token houtside hgap
      obtain ⟨harguments, htarget'⟩ := Reader.told_argument ctx r c
      have htile := Command.isTile_argumentOf (c := c) hspells hstart hlocation hscanner
      exact Gathers.gain htiles htarget hraw htile harguments htarget'
    | leavesTarget hlocation hend =>
      rw [hnext hlocation] at hend
      obtain ⟨front, raw, rfl, hraw, htiles, htarget, hstart, hspells⟩ :=
        h.exists_token nofun fun d hd => nomatch hend.symm.trans hd
      cases hspells with
      | target =>
        exact .closed (List.getElem?_eq_none_iff.1 hend) htiles rfl
    | leavesList => exact h
  gap := by
    rintro text d ⟨r, c⟩ hgap hd h
    obtain ⟨htiles, htarget⟩ := h.tiles_of_next hd
    exact .between (htiles.gap hgap) htarget

end

/-! ## Lines of arguments -/

section

variable {settings : Settings} {strict : Bool} {base : List Node} {line : Option Text}
  {c : Command}

/-- A line that has been gone over to its end is tokenized. -/
theorem Gathers.tokenized {text : Text} {r : Reader} (h : Gathers text .outside text (r, c)) :
    Tokenized text c.arguments c.outputTarget := by
  cases h with
  | between htiles htarget =>
    have hends : EndsArguments (text ++ []) c.outputTarget text.length := by
      rw [htarget, List.append_nil]
      rfl
    have htokenized := htiles.tokenized hends
    rwa [List.append_nil] at htokenized
  | @closed front rest _ _ hend htiles htarget =>
    refine htiles.tokenized ?_
    rw [htarget]
    refine ⟨?_, ?_⟩
    · rw [List.getElem?_append_right (Nat.le_refl _), Nat.sub_self]
      rfl
    · rw [List.drop_append, List.drop_eq_nil_of_le (Nat.le_succ _), Nat.add_sub_cancel_left]
      rfl
  | within _ _ _ hspells _ => cases hspells

/-- A run over a text from which nothing is replaced tokenizes it. -/
theorem Graph.tokenized_of_readText (hplain : settings.substitutes = false) {text : Text}
    {r : Reader} {result : Result}
    (h : grammar.readText settings strict (Reader.listener Command.handler) .argumentList text
      ({}, .relativeTo base) = ((r, c), .ok result)) :
    Tokenized text c.arguments c.outputTarget := by
  have hrun := Machine.ends_readFrom_scanned (Command.keepsPace text)
    (unsubstituted_of_plain hplain strict text) (length_le_positionLimit settings text)
    ({}, .relativeTo base) (.between .nil rfl)
  unfold Graph.readText at h
  split at h
  · next s hread =>
    have hgathered : s.gathered = (r, c) := congrArg Prod.fst h
    have hgathers := (hrun.ok hread).2.2.2
    rw [hgathered] at hgathers
    exact hgathers.tokenized
  · exact absurd (congrArg Prod.snd h) nofun

/-- A command that has been read is what its events have made of it, with the line. -/
theorem Command.exists_of_read {entrance : Entrance}
    (h : Command.read settings strict entrance base line = .ok c) :
    ∃ r d result, grammar.read settings strict (Reader.listener Command.handler) entrance.state line
        ({}, .relativeTo base) = ((r, d), .ok result) ∧
      c = { d with
        line := some result.line, valueIndex := result.valueIndex, error := result.error } := by
  unfold Command.read readLine readWith at h
  rcases hread : grammar.read settings strict (Reader.listener Command.handler) entrance.state line
    ({}, .relativeTo base) with ⟨⟨r, d⟩, fault | result⟩
  · rw [hread] at h
    cases h
  · rw [hread] at h
    cases h
    exact ⟨r, d, result, rfl, rfl⟩

/-- Reading a line of arguments loses nothing of it.  Whenever a line that is not blank has been
read, each argument stands in a range of the line that is left after all substitutions, and says
what stands there: its value, its name, or its name, `=` and its value.  The ranges are not empty
and lie one after the other in the order of the arguments; and what is outside of them is gaps, but
for the output target, which takes the rest of the line from its `>` on. -/
theorem Command.arguments_tokenize_line
    (h : Command.read settings strict .arguments base line = .ok c)
    (hsolid : isBlankText (line.getD []) = false) :
    ∃ l, c.line = some l ∧ Tokenized l.substituted c.arguments c.outputTarget := by
  obtain ⟨r, d, result, hread, rfl⟩ := Command.exists_of_read h
  have htext : grammar.readText settings strict (Reader.listener Command.handler) .argumentList
      (line.getD []) ({}, .relativeTo base) = ((r, d), .ok result) := by
    unfold Graph.read at hread
    dsimp only at hread
    rwa [hsolid, if_neg Bool.false_ne_true] at hread
  -- the same is gathered from the line that is left, without any substitution
  have hplain := Graph.readText_plain (Reader.isLocal_listener _) rfl
    (Reader.hear_entered_onto _ _) htext fun t ht => Machine.foresees_of_handledFrom
      ((Reader.steady_command .arguments).attends rfl trivial) rfl rfl ht _
  have htokenized := Graph.tokenized_of_readText (c := d) rfl hplain
  exact ⟨result.line, rfl, htokenized⟩

theorem Command.arguments_tokenize_line_of_target :
    isBlankText ['-', 'a', '=', '$', 'x', ' ', '>', 'o'] = false ∧
      ∃ c, Command.read (.ofVariable ['x'] ['b', ' ', 'c']) false .arguments []
          (some ['-', 'a', '=', '$', 'x', ' ', '>', 'o']) = .ok c ∧
        c.arguments = [⟨some ['-', 'a'], some ['b'], 0, 4, 0, false⟩,
          ⟨none, some ['c'], 5, 6, 1, false⟩] ∧
        ∃ l, c.line = some l ∧ Tokenized l.substituted c.arguments c.outputTarget := by
  have hread : (Command.read (.ofVariable ['x'] ['b', ' ', 'c']) false .arguments []
      (some ['-', 'a', '=', '$', 'x', ' ', '>', 'o'])).toOption.map Command.arguments =
        some [⟨some ['-', 'a'], some ['b'], 0, 4, 0, false⟩,
          ⟨none, some ['c'], 5, 6, 1, false⟩] := by decide +kernel
  refine ⟨by decide, ?_⟩
  cases hc : Command.read (.ofVariable ['x'] ['b', ' ', 'c']) false .arguments []
      (some ['-', 'a', '=', '$', 'x', ' ', '>', 'o']) with
  | error fault =>
    rw [hc] at hread
    cases hread
  | ok c =>
    rw [hc] at hread
    exact ⟨c, rfl, Option.some.inj hread, Command.arguments_tokenize_line hc (by decide)⟩

end
end CommandLine
