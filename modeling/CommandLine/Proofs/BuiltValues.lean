/-
# `CommandLine.Proofs.BuiltValues` — what the parts of a text do to the value being built

A *site* is a scene of the grammar of values: the active states with the builder.  Nothing that
the builder gathers depends on where in the text it stands, so that the parts of a text can be
followed one after the other (`Site.Leads`).  The rules here say what a part does to the level it
stands in, the list, object or whole text whose states are innermost:

    blanks, escaped names and `=`   the draft takes them in (`leads_blanks`, `leads_name`)
    a quoted text, a byte string    the draft holds it (`leads_quoted`, `leads_bytes`)
    a list, an object               the draft holds what it stands for (`leads_level`)
    a comma                         the draft becomes an item (`leads_comma`)
-/
import CommandLine.Value.Read
import CommandLine.Command.Printer
import CommandLine.Proofs.Scenes

namespace CommandLine

open Text

/-- What a listener has gathered if it accepts what it was told. -/
def Reply.accepted? {τ : Type} (r : Reply τ) : Option τ :=
  match r.verdict with
  | .accept => some r.gathered
  | _ => none

namespace Value

/-! ## The reaction of a builder -/

instance : Placed Builder := ⟨fun b => (b.draft.map Draft.place).toOption⟩

namespace Builder

/-- The answer of a builder to a signal.  Where a state was entered matters only for errors. -/
def answer (p : Spot) (signal : Signal StateName) (active : List StateName) (b : Builder) :
    Reply Builder :=
  match signal with
  | .entered x => b.enterState x
  | .leaving x => b.leaveState (active.head?.map fun _ => 0) x
  | .content => b.takeContent p.character?.toList p.before.length
  | .itemEnd => b.mapLevel Level.finishItem
  | .nameEnd => b.mapDraft fun d => if d.place.endsName then d.takeName else d

/-- What a signal does to a builder. -/
def react (p : Spot) : Reaction StateName Builder := fun signal active b =>
  (b.answer p signal active).accepted?

theorem toOption_mapM {ε α β : Type} (f : α → Except ε β) (l : List α) :
    (l.mapM f).toOption = l.mapM fun a => (f a).toOption := by
  induction l with
  | nil => rfl
  | cons a l ih =>
    rw [List.mapM_cons, List.mapM_cons, ← ih]
    cases f a with
    | error e => rfl
    | ok b => cases l.mapM f <;> rfl

/-- The bytes of a text do not depend on where errors are reported. -/
theorem readBytes_toOption (offset offset' : Int) (text : Text) :
    (readBytes offset text).toOption = (readBytes offset' text).toOption := by
  have hbyte : ∀ token, (readByte offset token).toOption = (readByte offset' token).toOption := by
    intro token
    unfold readByte
    cases byteNumber? token with
    | none => rfl
    | some number =>
      dsimp only
      split <;> rfl
  simp only [readBytes, toOption_mapM, hbyte]

theorem closeBytes_accepted (b : Builder) (offset offset' : Int) :
    (b.closeBytes (some offset)).accepted? = (b.closeBytes (some offset')).accepted? := by
  unfold closeBytes
  cases b.draft with
  | error d => rfl
  | ok d =>
    have hread := readBytes_toOption offset offset' d.buffer
    dsimp only
    cases h : readBytes offset d.buffer <;> cases h' : readBytes offset' d.buffer <;>
      rw [h, h'] at hread <;> cases hread <;> rfl

theorem leaveState_accepted (b : Builder) {start start' : Option Int} (x : StateName)
    (hstart : start.isSome = start'.isSome) :
    (b.leaveState start x).accepted? = (b.leaveState start' x).accepted? := by
  cases x with
  | bytes =>
    cases start <;> cases start' <;> cases hstart
    · rfl
    · exact closeBytes_accepted b _ _
  | _ => rfl

theorem accepted_hear {p : Spot} {active : List StateName} {c : Context StateName}
    (h : c.Shows grammar p active) (signal : Signal StateName) (b : Builder) :
    (hear signal c b).accepted? = react p signal active b := by
  cases signal with
  | leaving x =>
    refine leaveState_accepted b x ?_
    rw [← h.active, Context.active, Context.frame?, Stack.top?]
    cases c.stack.frames <;> rfl
  | content =>
    show (b.takeContent c.character c.location).accepted? = _
    rw [Context.character, h.character?, h.location]
    rfl
  | entered x => rfl
  | itemEnd => rfl
  | nameEnd => rfl

/-- A builder develops as the reaction says. -/
theorem sketches : listener.SketchedBy grammar id react where
  accepted signal b h hverdict := by
    rw [id, ← accepted_hear h, Reply.accepted?]
    simp only [listener] at hverdict
    rw [hverdict]
    rfl
  refused signal b h hverdict := by
    rw [id, ← accepted_hear h, Reply.accepted?]
    split
    · next haccept => exact absurd haccept hverdict
    · rfl
  place _ := rfl

end Builder

/-! ## Drafts -/

namespace Level

/-- The level with further text in its draft. -/
def append (l : Level) (text : Text) : Level := { l with draft := l.draft.append text }

@[simp] theorem append_nil (l : Level) : l.append [] = l := by
  rw [append, Draft.append, List.append_nil]

@[simp] theorem append_append (l : Level) (text more : Text) :
    (l.append text).append more = l.append (text ++ more) := by
  simp [append, Draft.append]

/-- The level with a draft of which only the name, blanks and some more text have been read. -/
def drafting (l : Level) (name : Option Text) (text : Text) : Level :=
  { l with draft := { name := name, buffer := text } }

/-- The level with a quoted text in its draft. -/
def quoting (l : Level) (name : Option Text) (text : Text) : Level :=
  { l with draft :=
      { name := name, buffer := text, quoted := true, quotedEnd := some text.length } }

/-- The level with a value in its draft that has been read after some blanks. -/
def holding (l : Level) (name : Option Text) (blanks : Text) (v : Value) : Level :=
  { l with draft := { name := name, buffer := blanks, value := some v } }

end Level

end Value

namespace StateName

/-- The text of the state is a list of items. -/
def readsItems : StateName → Bool
  | value | list | object => true
  | _ => false

theorem readsItems_cases {x : StateName} (hx : x.readsItems = true) :
    x = value ∨ x = list ∨ x = object := by
  cases x <;> cases hx
  · exact .inl rfl
  · exact .inr (.inl rfl)
  · exact .inr (.inr rfl)

end StateName

namespace Value

/-! ## Sites -/

/-- The active states, and the builder. -/
abbrev Site := Scene StateName Builder

namespace Site

/-- The site where a level is innermost. -/
def reading (active : List StateName) (levels : List Level) (l : Level) : Site :=
  ⟨active, { levels := l :: levels }⟩

/-- The text leads from one site to another, whatever stands before and after it. -/
def Leads (maxDepth : Int) (text : Text) (s s' : Site) : Prop :=
  ∀ before after, Scene.walk grammar Builder.react maxDepth before text after s = some s'

section

variable {maxDepth : Int} {text first second : Text} {s s' s'' : Site} {d : Char}

namespace Leads

theorem nil : Leads maxDepth [] s s := fun _ _ => rfl

theorem append (hfirst : Leads maxDepth first s s') (hsecond : Leads maxDepth second s' s'') :
    Leads maxDepth (first ++ second) s s'' := by
  intro before after
  rw [Scene.walk_append_of (hfirst before (second ++ after))]
  exact hsecond _ _

theorem cons (hfirst : Leads maxDepth [d] s s') (hsecond : Leads maxDepth text s' s'') :
    Leads maxDepth (d :: text) s s'' :=
  hfirst.append hsecond

/-- A character leads to the site that its action comes to. -/
theorem single {x : StateName} {outer : List StateName} {b : Builder}
    (h : ∀ p : Spot, p.maxDepth = maxDepth → p.character? = some d →
      Scene.actUpTo grammar Builder.react p 1000 ((grammar x).actionFor [d]) ⟨x :: outer, b⟩ =
        some s') :
    Leads maxDepth [d] ⟨x :: outer, b⟩ s' := by
  intro before after
  show (Scene.handle grammar Builder.react _ _).bind _ = _
  rw [Scene.handle_cons rfl, h ⟨maxDepth, before, d :: ([] ++ after)⟩ rfl rfl]
  rfl

end Leads

/-! ## Content -/

section

variable {x : StateName} {outer : List StateName} {levels : List Level} {l : Level}

theorem react_content {p : Spot} {active : List StateName} (hd : p.character? = some d)
    (hopen : l.draft.isClosed = false ∨ isBlank d = true) :
    Builder.react p .content active { levels := l :: levels } =
      some { levels := l.append [d] :: levels } := by
  have hfits : (l.draft.isClosed && !(! [d].isEmpty && isBlankText [d])) = false := by
    rcases hopen with h | h <;> simp [h, isBlankText]
  show (Builder.takeContent _ p.character?.toList _).accepted? = _
  rw [hd]
  unfold Builder.takeContent Builder.draft
  simp only [Option.toList_some, hfits]
  rfl

theorem leads_content (hd : (grammar x).actionFor [d] = .content)
    (hopen : l.draft.isClosed = false ∨ isBlank d = true) :
    Leads maxDepth [d] (reading (x :: outer) levels l)
      (reading (x :: outer) levels (l.append [d])) := by
  refine .single fun p _ hp => ?_
  rw [hd]
  exact Scene.act_content (react_content hp hopen)

/-- A text of which each character is content. -/
theorem leads_text {accepts : Char → Bool}
    (hcontent : ∀ d, accepts d = true → (grammar x).actionFor [d] = .content)
    (hopen : l.draft.isClosed = false ∨ isBlankText text = true)
    (htext : text.all accepts = true) :
    Leads maxDepth text (reading (x :: outer) levels l)
      (reading (x :: outer) levels (l.append text)) := by
  induction text generalizing l with
  | nil =>
    rw [Level.append_nil]
    exact .nil
  | cons d text ih =>
    rw [List.all_cons, Bool.and_eq_true] at htext
    rw [isBlankText, List.all_cons, Bool.and_eq_true] at hopen
    have hrest := ih (l := l.append [d]) (hopen.imp id And.right) htext.2
    rw [Level.append_append] at hrest
    exact (leads_content (hcontent d htext.1) (hopen.imp id And.left)).cons hrest

/-- The actions of a blank in a list of items. -/
theorem actionFor_blank (hx : x.readsItems = true) (hd : isBlank d = true) :
    (grammar x).actionFor [d] = .content := by
  have hkeys : (grammar x).transitions.all (fun t => t.1.all fun e => !isBlank e) = true := by
    obtain rfl | rfl | rfl := StateName.readsItems_cases hx <;> rfl
  refine actionFor_eq_content hkeys ?_ (by rw [hd]; rfl) fun _ => ?_
  all_goals obtain rfl | rfl | rfl := StateName.readsItems_cases hx <;> rfl

/-- Blanks are content, also after the end of a value. -/
theorem leads_blanks (hx : x.readsItems = true) (htext : isBlankText text = true) :
    Leads maxDepth text (reading (x :: outer) levels l)
      (reading (x :: outer) levels (l.append text)) :=
  leads_text (fun _ hd => actionFor_blank hx hd) (.inr htext) htext

/-! ## Escaped characters -/

/-- A character after a backslash stands for itself. -/
theorem leads_pair (hx : (grammar x).actionFor ['\\'] = .escape .valueEscape)
    (hescapes : grammar.escapesIn (x :: outer) = true) (hreturn : (grammar x).onReturn = .skip)
    (hroom : (x :: outer).length < maxDepth) (hopen : l.draft.isClosed = false) (d : Char) :
    Leads maxDepth ['\\', d] (reading (x :: outer) levels l)
      (reading (x :: outer) levels (l.append [d])) := by
  have hopened : Leads maxDepth ['\\'] (reading (x :: outer) levels l)
      (reading (.valueEscape :: x :: outer) levels l) := by
    refine .single fun p hp _ => ?_
    rw [hx, Scene.act_escape hescapes]
    exact Scene.act_enter (hp ▸ hroom) rfl
  have htaken : Leads maxDepth [d] (reading (.valueEscape :: x :: outer) levels l)
      (reading (x :: outer) levels (l.append [d])) := by
    refine .single fun p _ hd => ?_
    have haction : (grammar .valueEscape).actionFor [d] = .contentAndLeave := by
      rw [State.actionFor_singleton]
      exact ite_self _
    have hleave : Builder.react p (.leaving .valueEscape) (.valueEscape :: x :: outer)
        { levels := l.append [d] :: levels } = some { levels := l.append [d] :: levels } := rfl
    rw [haction, Scene.act_contentAndLeave (react_content hd (.inl hopen)),
      Scene.act_leave hleave, hreturn]
    rfl
  exact hopened.cons htaken

/-- A text with a backslash before each character. -/
def escapedEach (text : Text) : Text := text.flatMap fun d => ['\\', d]

theorem leads_escapedEach (hx : (grammar x).actionFor ['\\'] = .escape .valueEscape)
    (hescapes : grammar.escapesIn (x :: outer) = true) (hreturn : (grammar x).onReturn = .skip)
    (hroom : (x :: outer).length < maxDepth) (hopen : l.draft.isClosed = false) (text : Text) :
    Leads maxDepth (escapedEach text) (reading (x :: outer) levels l)
      (reading (x :: outer) levels (l.append text)) := by
  induction text generalizing l with
  | nil =>
    rw [Level.append_nil]
    exact .nil
  | cons d text ih =>
    have hrest := ih (l := l.append [d]) hopen
    rw [Level.append_append] at hrest
    exact (leads_pair hx hescapes hreturn hroom hopen d).append hrest

/-- A character that is written after a backslash in quotes. -/
def isEscaped (d : Char) : Bool := d = '\\' || d = '"'

theorem escaped_cons (d : Char) (text : Text) : Format.escaped (d :: text) =
    (if isEscaped d then ['\\', d] else [d]) ++ Format.escaped text := rfl

/-- What stands in the quotes of a text. -/
theorem leads_escaped {text : Text}
    (hroom : text.any isEscaped = true → (StateName.valueQuotes :: outer).length < maxDepth)
    (hopen : l.draft.isClosed = false) :
    Leads maxDepth (Format.escaped text) (reading (.valueQuotes :: outer) levels l)
      (reading (.valueQuotes :: outer) levels (l.append text)) := by
  induction text generalizing l with
  | nil =>
    rw [Level.append_nil]
    exact .nil
  | cons d text ih =>
    rw [List.any_cons, Bool.or_eq_true] at hroom
    have hrest := ih (fun h => hroom (.inr h)) (l := l.append [d]) hopen
    rw [Level.append_append] at hrest
    rw [escaped_cons]
    refine Leads.append ?_ hrest
    by_cases hd : isEscaped d = true
    · rw [if_pos hd]
      exact leads_pair rfl rfl rfl (hroom (.inl hd)) hopen d
    · have hkeys : (grammar .valueQuotes).transitions.all (fun t => t.1.all isEscaped) = true :=
        rfl
      rw [if_neg hd]
      exact leads_content (actionFor_eq_content hkeys rfl (eq_false_of_ne_true hd) fun _ => rfl)
        (.inl hopen)

end

/-! ## Items -/

section

variable {x : StateName} {outer : List StateName} {levels : List Level} {l : Level}
  {name : Option Text} {blanks : Text}
  (hactive : (x :: outer).all StateName.readsItems = true)

theorem escapesIn_of_readsItems {active : List StateName}
    (h : active.all StateName.readsItems = true) : grammar.escapesIn active = true := by
  induction active with
  | nil => rfl
  | cons x outer ih =>
    rw [List.all_cons, Bool.and_eq_true] at h
    have hnone : (grammar x).escapes = none := by
      obtain rfl | rfl | rfl := StateName.readsItems_cases h.1 <;> rfl
    rw [Graph.escapesIn, hnone]
    exact ih h.2

theorem onReturn_of_readsItems (hx : x.readsItems = true) : (grammar x).onReturn = .skip := by
  obtain rfl | rfl | rfl := StateName.readsItems_cases hx <;> rfl

theorem actionFor_of_itemActions (hx : x.readsItems = true) {action : Action StateName}
    (h : Grammar.itemActions.lookup [d] = some action) : (grammar x).actionFor [d] = action := by
  refine State.actionFor_eq_of_lookup ?_
  obtain rfl | rfl | rfl := StateName.readsItems_cases hx
  · exact h
  · exact List.lookup_append.trans (by rw [h]; rfl)
  · exact List.lookup_append.trans (by rw [h]; rfl)

theorem place_drafting (text : Text) : (l.drafting name text).draft.place =
    { startsValue := isBlankText text, opensBytes := trim text == Draft.bytesWord
      endsName := name.isNone && !isBlankText text } := by
  simp [Level.drafting, Draft.place, Draft.isPlain]

theorem place?_drafting (text : Text) :
    Placed.place? ({ levels := l.drafting name text :: levels } : Builder) =
      some { startsValue := isBlankText text, opensBytes := trim text == Draft.bytesWord
             endsName := name.isNone && !isBlankText text } :=
  congrArg some (place_drafting text)

/-- The delimiters of a list or an object, with its state. -/
structure Delimits (opening closing : Char) (y : StateName) (kind : Kind) : Prop where
  opens : Grammar.itemActions.lookup [opening] = some (.startValue y) ∨
    Grammar.itemActions.lookup [opening] = some (.startBraces y .bytes)
  closes : (grammar y).actionFor [closing] = .leave
  onEnter : (grammar y).onEnter = .skip
  entered : ∀ b : Builder, b.enterState y = { gathered := b.openLevel kind }
  leaving : ∀ (b : Builder) (start : Option Int), b.leaveState start y = b.closeLevel

theorem delimits_list : Delimits '[' ']' .list .list :=
  ⟨.inl rfl, rfl, rfl, fun _ => rfl, fun _ _ => rfl⟩

theorem delimits_object : Delimits '{' '}' .object .object :=
  ⟨.inr rfl, rfl, rfl, fun _ => rfl, fun _ _ => rfl⟩

include hactive

theorem isItems : x.readsItems = true := (Bool.and_eq_true_iff.1 (List.all_cons ▸ hactive)).1

theorem leads_comma : Leads maxDepth [','] (reading (x :: outer) levels l)
    (reading (x :: outer) levels l.finishItem) := by
  refine .single fun p _ _ => ?_
  rw [actionFor_of_itemActions (isItems hactive) rfl]
  exact Scene.act_endItem rfl rfl

/-- The `=` after the name of an item. -/
theorem leads_equals {text : Text} (htext : isBlankText text = false) :
    Leads maxDepth ['='] (reading (x :: outer) levels (l.drafting none text))
      (reading (x :: outer) levels (l.drafting (some (trim text)) [])) := by
  refine .single fun p _ _ => ?_
  have hends : (l.drafting none text).draft.place.endsName = true := by
    rw [place_drafting, htext]
    rfl
  have hreact : Builder.react p .nameEnd (x :: outer)
      { levels := l.drafting none text :: levels } =
      some { levels := l.drafting (some (trim text)) [] :: levels } := by
    show some (Builder.mk ({ l with draft := if _ then _ else _ } :: levels) none) = _
    rw [if_pos hends]
    rfl
  rw [actionFor_of_itemActions (isItems hactive) rfl]
  exact Scene.act_endName rfl hends hreact

/-- The name of an item, up to the `=`. -/
theorem leads_name {name front back : Text} (hroom : (x :: outer).length < maxDepth)
    (hname : name ≠ []) (htrim : trim name = name) (hfront : isBlankText front = true)
    (hback : isBlankText back = true) :
    Leads maxDepth (front ++ (escapedEach name ++ (back ++ ['='])))
      (reading (x :: outer) levels (l.drafting none []))
      (reading (x :: outer) levels (l.drafting (some name) [])) := by
  have hx := isItems hactive
  have hblanks : Leads maxDepth front (reading (x :: outer) levels (l.drafting none []))
      (reading (x :: outer) levels (l.drafting none front)) := leads_blanks hx hfront
  have htaken : Leads maxDepth (escapedEach name)
      (reading (x :: outer) levels (l.drafting none front))
      (reading (x :: outer) levels (l.drafting none (front ++ name))) :=
    leads_escapedEach (actionFor_of_itemActions hx rfl) (escapesIn_of_readsItems hactive)
      (onReturn_of_readsItems hx) hroom rfl name
  have hblanks' : Leads maxDepth back
      (reading (x :: outer) levels (l.drafting none (front ++ name)))
      (reading (x :: outer) levels (l.drafting none (front ++ name ++ back))) :=
    leads_blanks hx hback
  have htext : trim (front ++ name ++ back) = name := by
    rw [List.append_assoc, trim_append hfront hback, htrim]
  have hsolid : isBlankText (front ++ name ++ back) = false := by
    by_contra hblank
    have hnone := trim_of_isBlankText (eq_true_of_ne_false hblank)
    exact hname (htext.symm.trans hnone)
  have hequals : Leads maxDepth ['=']
      (reading (x :: outer) levels (l.drafting none (front ++ name ++ back)))
      (reading (x :: outer) levels (l.drafting (some (trim (front ++ name ++ back))) [])) :=
    leads_equals hactive hsolid
  rw [htext] at hequals
  exact hblanks.append (htaken.append (hblanks'.append hequals))

/-- A character that opens a part where a value can start. -/
theorem leads_opening {y z : StateName} {b : Builder} (hroom : (x :: outer).length < maxDepth)
    (hblanks : isBlankText blanks = true)
    (haction : Grammar.itemActions.lookup [d] = some (.startValue y) ∨
      Grammar.itemActions.lookup [d] = some (.startBraces y z))
    (honEnter : (grammar y).onEnter = .skip)
    (hreact : ∀ p, Builder.react p (.entered y) (y :: x :: outer)
      { levels := l.drafting name blanks :: levels } = some b) :
    Leads maxDepth [d] (reading (x :: outer) levels (l.drafting name blanks))
      ⟨y :: x :: outer, b⟩ := by
  refine .single fun p hp _ => ?_
  have hentered (n : Nat) : Scene.actUpTo grammar Builder.react p (n + 2) (.enter y)
      ⟨x :: outer, { levels := l.drafting name blanks :: levels }⟩ = some ⟨y :: x :: outer, b⟩ := by
    rw [Scene.act_enter (hp ▸ hroom) (hreact p), honEnter]
    rfl
  have hplace : Placed.place? ({ levels := l.drafting name blanks :: levels } : Builder) =
      some _ := place?_drafting blanks
  rcases haction with haction | haction
  · rw [actionFor_of_itemActions (isItems hactive) haction,
      Scene.act_startValue hplace hblanks]
    exact hentered _
  · rw [actionFor_of_itemActions (isItems hactive) haction,
      Scene.act_startBraces_object hplace hblanks]
    exact hentered _

/-- A quoted text. -/
theorem leads_quoted {text : Text} (hroom : (x :: outer).length < maxDepth)
    (hroom' : text.any isEscaped = true →
      (StateName.valueQuotes :: x :: outer).length < maxDepth)
    (hblanks : isBlankText blanks = true) :
    Leads maxDepth ('"' :: Format.escaped text ++ ['"'])
      (reading (x :: outer) levels (l.drafting name blanks))
      (reading (x :: outer) levels (l.quoting name text)) := by
  let opened : Level := { l with draft := { name := name, quoted := true } }
  have hopened : Leads maxDepth ['"'] (reading (x :: outer) levels (l.drafting name blanks))
      (reading (.valueQuotes :: x :: outer) levels opened) :=
    leads_opening (z := .bytes) hactive hroom hblanks (.inl rfl) rfl fun _ => rfl
  have htaken : Leads maxDepth (Format.escaped text)
      (reading (.valueQuotes :: x :: outer) levels opened)
      (reading (.valueQuotes :: x :: outer) levels (opened.append text)) :=
    leads_escaped hroom' rfl
  have hclosed : Leads maxDepth ['"']
      (reading (.valueQuotes :: x :: outer) levels (opened.append text))
      (reading (x :: outer) levels (l.quoting name text)) := by
    refine .single fun p _ _ => ?_
    have hleave : Builder.react p (.leaving .valueQuotes) (.valueQuotes :: x :: outer)
        { levels := opened.append text :: levels } =
        some { levels := l.quoting name text :: levels } := rfl
    show Scene.actUpTo grammar Builder.react p 1000 .leave _ = _
    rw [reading, Scene.act_leave hleave, onReturn_of_readsItems (isItems hactive)]
    rfl
  exact (hopened.cons htaken).append hclosed

/-- A byte string. -/
theorem leads_bytes {body : Text} {octets : List UInt8} (hroom : (x :: outer).length < maxDepth)
    (hblanks : isBlankText blanks = true) (hbody : '}' ∉ body)
    (hread : readBytes 0 body = .ok octets) :
    Leads maxDepth (Draft.bytesWord ++ '{' :: body ++ ['}'])
      (reading (x :: outer) levels (l.drafting name blanks))
      (reading (x :: outer) levels (l.holding name [] (.bytes octets))) := by
  have hx := isItems hactive
  have hword : Leads maxDepth Draft.bytesWord
      (reading (x :: outer) levels (l.drafting name blanks))
      (reading (x :: outer) levels (l.drafting name (blanks ++ Draft.bytesWord))) := by
    have hletters (d : Char) (hd : Draft.bytesWord.contains d = true) :
        (grammar x).actionFor [d] = .content := by
      simp only [Draft.bytesWord, List.contains_cons, List.contains_nil, Bool.or_false,
        Bool.or_eq_true, beq_iff_eq] at hd
      obtain rfl | rfl | rfl := StateName.readsItems_cases hx <;>
        rcases hd with rfl | rfl | rfl | rfl | rfl <;> rfl
    exact leads_text hletters (.inl rfl) rfl
  have hopened : Leads maxDepth ['{']
      (reading (x :: outer) levels (l.drafting name (blanks ++ Draft.bytesWord)))
      (reading (.bytes :: x :: outer) levels (l.drafting name [])) := by
    refine .single fun p hp _ => ?_
    have hsolid : isBlankText (blanks ++ Draft.bytesWord) = false := by
      rw [isBlankText, List.all_append]
      exact Bool.and_false _
    have htrim : trim (blanks ++ (Draft.bytesWord ++ [])) = Draft.bytesWord :=
      trim_append hblanks rfl
    rw [List.append_nil] at htrim
    rw [actionFor_of_itemActions hx rfl, reading,
      Scene.act_startBraces_bytes (place?_drafting _) hsolid (by rw [htrim]; rfl)]
    exact Scene.act_enter (hp ▸ hroom) rfl
  have htaken : Leads maxDepth body (reading (.bytes :: x :: outer) levels (l.drafting name []))
      (reading (.bytes :: x :: outer) levels (l.drafting name body)) := by
    have hkeys : (grammar .bytes).transitions.all (fun t => t.1.all (· == '}')) = true := rfl
    have hinside (d : Char) (hd : (d != '}') = true) :
        (grammar .bytes).actionFor [d] = .content :=
      actionFor_eq_content hkeys rfl (by simpa using hd) fun _ => rfl
    refine leads_text hinside (.inl rfl) (List.all_eq_true.2 fun d hd => bne_iff_ne.2 ?_)
    rintro rfl
    exact hbody hd
  have hclosed : Leads maxDepth ['}']
      (reading (.bytes :: x :: outer) levels (l.drafting name body))
      (reading (x :: outer) levels (l.holding name [] (.bytes octets))) := by
    refine .single fun p _ _ => ?_
    have hleave : Builder.react p (.leaving .bytes) (.bytes :: x :: outer)
        { levels := l.drafting name body :: levels } =
        some { levels := l.holding name [] (.bytes octets) :: levels } := by
      show (Builder.closeBytes _ (some 0)).accepted? = _
      unfold Builder.closeBytes
      simp only [Builder.draft, Level.drafting, hread]
      rfl
    show Scene.actUpTo grammar Builder.react p 1000 .leave _ = _
    rw [reading, Scene.act_leave hleave, onReturn_of_readsItems hx]
    rfl
  exact (hword.append (hopened.cons htaken)).append hclosed

/-- A list or an object. -/
theorem leads_level {opening closing : Char} {y : StateName} {kind : Kind} {body : Text}
    {inner : Level} {v : Value} (hy : Delimits opening closing y kind)
    (hroom : (x :: outer).length < maxDepth) (hblanks : isBlankText blanks = true)
    (hbody : Leads maxDepth body
      (reading (y :: x :: outer) (l.drafting name blanks :: levels) { kind := kind })
      (reading (y :: x :: outer) (l.drafting name blanks :: levels) inner))
    (hvalue : inner.finishItem.value = .ok (some v)) :
    Leads maxDepth (opening :: body ++ [closing])
      (reading (x :: outer) levels (l.drafting name blanks))
      (reading (x :: outer) levels (l.holding name blanks v)) := by
  have hopened : Leads maxDepth [opening]
      (reading (x :: outer) levels (l.drafting name blanks))
      (reading (y :: x :: outer) (l.drafting name blanks :: levels) { kind := kind }) := by
    refine leads_opening hactive hroom hblanks hy.opens hy.onEnter fun p => ?_
    show (Builder.enterState _ y).accepted? = _
    rw [hy.entered]
    rfl
  have hclosed : Leads maxDepth [closing]
      (reading (y :: x :: outer) (l.drafting name blanks :: levels) inner)
      (reading (x :: outer) levels (l.holding name blanks v)) := by
    refine .single fun p _ _ => ?_
    have hleave : Builder.react p (.leaving y) (y :: x :: outer)
        { levels := inner :: l.drafting name blanks :: levels } =
        some { levels := l.holding name blanks v :: levels } := by
      show (Builder.leaveState _ _ y).accepted? = _
      rw [hy.leaving]
      unfold Builder.closeLevel
      simp only [hvalue]
      rfl
    rw [hy.closes, reading, Scene.act_leave hleave, onReturn_of_readsItems (isItems hactive)]
    rfl
  exact (hopened.cons hbody).append hclosed

omit hactive in
/-- The end of the text. -/
theorem finish_whole {p : Spot} {value : Option Value} (hvalue : l.finishItem.value = .ok value) :
    Scene.finish grammar Builder.react p (reading [.value] [] l) =
      some ⟨[], { result := value }⟩ := by
  have hleave : Builder.react p (.leaving .value) [.value] { levels := [l] } =
      some { result := value } := by
    show (Builder.closeLevel _).accepted? = _
    unfold Builder.closeLevel
    simp only [hvalue]
    rfl
  exact Scene.leave_last hleave

end

end
end Site
end Value
end CommandLine
