/-
# `CommandLine.Proofs.ListSeparators` — which separators of a list are reported

The properties of an operation are separated by `,` and its headers by `;`.  No state of a list
reports such a character by itself.  It is reported when the item before it is left on it:

    handled by                      what happens                             reported
    the item, in its name           the item is left                         once
    the value of the item           the value and then the item are left     once
    the list                        nothing                                  not at all

The list itself handles a separator where no item is being read: after its opening bracket, after
another separator, and after the gaps behind either.  So a separator is reported exactly if an item
stands before it, and an empty item takes its separator with it.

That nothing else reports the same place is a fact about all marks of a list
(`count_of_handled`), so only the character itself is looked at here.
-/
import CommandLine.Proofs.ListMarks

namespace CommandLine

open StateName Reader Reading Machine

/-! ## The two lists -/

/-- The lists of an operation. -/
inductive ItemList where
  | properties
  | headers

namespace ItemList

/-- The state of the list. -/
def state : ItemList → StateName
  | properties => .propertyList
  | headers => .headerList

/-- The state in which the name of an item is read. -/
def item : ItemList → StateName
  | properties => .property
  | headers => .header

/-- The state in which the value of an item is read. -/
def itemValue : ItemList → StateName
  | properties => .propertyValue
  | headers => .headerValue

/-- What separates two items. -/
def separator : ItemList → Char
  | properties => ','
  | headers => ';'

/-- The report of a separator. -/
def separatorEvent : ItemList → Int → Event
  | properties => .argumentSeparator
  | headers => .headerSeparator

theorem marksAt_separatorEvent (list : ItemList) (place : Nat) :
    (list.separatorEvent place).MarksAt place := by
  cases list <;> exact ⟨rfl, rfl⟩

end ItemList

/-- Around an item there is its list, and no other item. -/
theorem Nested.around_item {b : StateName} {list : ItemList} {active : List StateName}
    (h : Nested b (list.item :: active)) :
    ∃ rest, active = list.state :: rest ∧ list.item ∉ list.state :: rest := by
  have hframes := h.isFrame_of_isOuter (by cases list <;> rfl)
  have hitem : list.item ∉ active := by
    intro hmem
    exact absurd (hframes _ hmem) (by cases list <;> decide)
  obtain ⟨rest, rfl, -⟩ : ∃ rest, active = list.state :: rest ∧ Nested b (list.state :: rest) := by
    cases list with
    | properties => exact h.holder_eq (y := .propertyList) rfl (by decide)
    | headers => exact h.holder_eq (y := .headerList) rfl (by decide)
  exact ⟨rest, rfl, hitem⟩

/-! ## How often an event is reported -/

namespace Reading

variable {α β : Type} {c : Context StateName}

/-- When the program goes through it has reported the event `n` times. -/
def Counts (e : Event) (n : Nat) (p : Reading α) : Prop :=
  ∀ w a w', p w = .ok a w' →
    (w'.reports.map Prod.fst).count e = (w.reports.map Prod.fst).count e + n

namespace Counts

variable {e : Event} {n m : Nat} {p : Reading α} {k : α → Reading β}

theorem bind (hp : Counts e n p) (hk : ∀ a, Counts e m (k a)) : Counts e (n + m) (p >>= k) := by
  intro w b w' h
  rw [bind_apply] at h
  cases hpw : p w with
  | error fault v =>
    rw [hpw] at h
    cases h
  | ok a v =>
    rw [hpw] at h
    rw [hk a v b w' h, hp w a v hpw, Nat.add_assoc]

/-- A program that reports other events only. -/
theorem zero (h : Reports (· ≠ e) p) : Counts e 0 p := by
  intro w a w' hw
  have hadds := h w
  rw [hw] at hadds
  obtain ⟨reports, hreports, hne⟩ := hadds
  have hnone : (reports.map Prod.fst).count e = 0 := by
    rw [List.count_eq_zero]
    intro hmem
    obtain ⟨report, hreport, rfl⟩ := List.mem_map.1 hmem
    exact hne report hreport rfl
  rw [hreports, List.map_append, List.count_append, hnone]

theorem after (h : Reports (· ≠ e) p) (hk : ∀ a, Counts e n (k a)) : Counts e n (p >>= k) := by
  have hbind := (zero h).bind hk
  rwa [Nat.zero_add] at hbind

theorem fail (fault : OperationFault) : Counts e n (fail fault >>= k) := by
  intro w a w' h
  cases h

theorem ite {c : Prop} [Decidable c] {p q : Reading α} (hp : Counts e n p) (hq : Counts e n q) :
    Counts e n (if c then p else q) := by
  split
  · exact hp
  · exact hq

/-- An item that ends at a separator reports it last. -/
theorem separatorAndClear {d : Char} (hd : c.character? = some d) :
    Counts e 1 (do
      reportOn c d e
      mapTokens Tokens.clear) := by
  intro w a w' h
  rw [reportOn, if_pos hd] at h
  cases h
  show ((w.reports ++ [(e, w.reader)]).map Prod.fst).count e = _
  rw [List.map_append, List.count_append]
  show _ + [e].count e = _
  rw [List.count_singleton_self]

/-- A property that ends at a `,` reports it once. -/
theorem propertyDone (hd : c.character? = some ',') :
    Counts (.argumentSeparator c.location) 1 (propertyDone c) := by
  have flag (start : Int) (name value : Text) : Counts (.argumentSeparator c.location) 1 (do
      Reading.reportFlag c start name value
      Reading.reportOn c ',' (.argumentSeparator c.location)
      Reading.mapTokens Tokens.clear) :=
    after (.reportFlag c (by rintro _ h rfl; cases h) _ _ _) fun _ => separatorAndClear hd
  refine after .tokens fun t => ?_
  split
  · refine after .take fun text => ?_
    split
    · exact .ite (fail _) (flag _ _ _)
    · exact flag _ _ _
  · exact fail _
  · refine after (.takeValue c) fun value => .ite ?_ ?_
    · exact after (.nameWithoutValue (by rintro _ h rfl; cases h) _ _ _) fun _ =>
        separatorAndClear hd
    · exact after (.report nofun) fun _ => separatorAndClear hd

/-- A header that ends at a `;` reports it once. -/
theorem headerDone (hd : c.character? = some ';') :
    Counts (.headerSeparator c.location) 1 (headerDone c) := by
  have named (start : Int) (name value : Text) : Counts (.headerSeparator c.location) 1 (do
      if name.isEmpty then Reading.fail (.headerNameMissing start)
      if value.isEmpty then Reading.report (.headerName start name)
      else Reading.report (.header name value start)
      Reading.reportOn c ';' (.headerSeparator c.location)
      Reading.mapTokens Tokens.clear) :=
    .ite (fail _) (.ite (after (.report nofun) fun _ => separatorAndClear hd)
      (after (.report nofun) fun _ => separatorAndClear hd))
  refine after .tokens fun t => ?_
  split
  · exact after .take fun _ => named _ _ _
  · exact after (.takeValue c) fun _ => named _ _ _

end Counts
end Reading

namespace ItemList

variable {list : ItemList} {c : Context StateName} {r : Reader}

/-- An item that is left on a separator reports it once. -/
theorem count_added_leaving (hd : c.character? = some list.separator)
    (haccepts : (r.hear (.leaving list.item) c).2 = none) :
    (added (.leaving list.item) c r).count (list.separatorEvent c.location) = 1 := by
  have hcounts : Counts (list.separatorEvent c.location) 1
      (Reading.signal c (.leaving list.item)) := by
    cases list with
    | properties => exact .propertyDone hd
    | headers => exact .headerDone hd
  unfold added
  unfold Reader.hear at haccepts ⊢
  cases hsignal : Reading.signal c (.leaving list.item) { reader := r } with
  | error e work =>
    rw [hsignal] at haccepts
    cases haccepts
  | ok a work => exact hcounts _ _ _ hsignal

/-- Leaving the value of an item reports nothing. -/
theorem added_leaving_itemValue : added (.leaving list.itemValue) c r = [] := by
  cases list <;> rfl

end ItemList

/-! ## The separator itself -/

namespace Machine

section

variable {b : StateName} {list : ItemList} {place : Nat} {outer : List StateName}
  {reads : List StateName → Prop} {n : Nat} {s t : Session StateName (Reader × List Event)}

/-- What can be told on a separator: the value of an item is left, and the item itself. -/
def endsItem (list : ItemList) : Signal StateName → List StateName → Prop
  | .leaving x, active => x = list.itemValue ∨ x = list.item ∧ list.item ∉ active.tail
  | _, _ => False

/-- On its separator an item is left, and the list goes on. -/
theorem secure_item (houter : list.item ∉ list.state :: outer) :
    Secure grammar (endsItem list) reads (some list.separator) (n + 3)
      ((grammar list.item).actionFor [list.separator]) (· = list.state :: outer)
      (list.item :: list.state :: outer) := by
  cases list <;> exact ⟨.inr ⟨rfl, houter⟩, rfl⟩

/-- The value is left first. -/
theorem secure_itemValue (houter : list.item ∉ list.state :: outer) :
    Secure grammar (endsItem list) reads (some list.separator) (n + 5)
      ((grammar list.itemValue).actionFor [list.separator]) (· = list.state :: outer)
      (list.itemValue :: list.item :: list.state :: outer) := by
  cases list <;> exact ⟨.inl rfl, .inr ⟨rfl, houter⟩, rfl⟩

/-- As long as the item is there its separator has not been reported. -/
theorem governs_separator (hreads : ∀ active, ¬ ReadsItems b active) {f : Footing}
    (hd : f.character? place = some list.separator) (n : Nat) :
    Governs grammar collector { guard := endsItem list, reads := ReadsItems b }
      (f.character? place)
      (StandsWith (fun active events => events.count (list.separatorEvent place) =
        n + if list.item ∈ active then 0 else 1) f place) (fun _ _ => True) := by
  refine governs_accepted hreads f place (fun _ _ _ hguard => hguard.elim) ?_
  rintro c r x outer events rfl rfl haccepts hguard hevents
  rw [List.count_append, hevents]
  rcases hguard with rfl | ⟨rfl, hitem⟩
  · have hne : list.item ≠ list.itemValue := by cases list <;> exact nofun
    rw [ItemList.added_leaving_itemValue, List.count_nil, Nat.add_zero]
    simp only [List.mem_cons, hne, false_or]
  · rw [List.tail_cons] at hitem
    rw [ItemList.count_added_leaving hd haccepts, if_pos List.mem_cons_self, if_neg hitem]

variable (hreads : ∀ active, ¬ ReadsItems b active)
include hreads

/-- A separator that ends an item is reported once. -/
theorem reportsOf_separator {active : List StateName} (hactive : s.context.active = active)
    (hrest : list.item ∉ list.state :: outer)
    (hends : active = list.item :: list.state :: outer ∨
      active = list.itemValue :: list.item :: list.state :: outer)
    (hd : s.context.character? = some list.separator)
    (h : handle grammar collector s = .ok () t) :
    reportsOf (list.separatorEvent s.context.location) t =
      reportsOf (list.separatorEvent s.context.location) s + 1 := by
  have hcharacter : s.context.footing.character? s.context.location = some list.separator := hd
  have hsecure : Secure.dispatchBy grammar (some list.separator)
      (Secure grammar (endsItem list) (ReadsItems b) (some list.separator) actionLimit)
      (· = list.state :: outer) active := by
    rcases hends with rfl | rfl
    · exact secure_item (n := 997) hrest
    · exact secure_itemValue (n := 995) hrest
  have hmem : list.item ∈ active := by
    rcases hends with rfl | rfl
    · exact List.mem_cons_self
    · exact List.mem_cons_of_mem _ List.mem_cons_self
  have hstart : reportsOf (list.separatorEvent s.context.location) s =
      reportsOf (list.separatorEvent s.context.location) s + if list.item ∈ active then 0 else 1 := by
    rw [if_pos hmem, Nat.add_zero]
  obtain ⟨hlist, ht⟩ := ok_of_handle (governs_separator hreads hcharacter _)
    (hcharacter ▸ hsecure) ⟨rfl, rfl, hactive, hstart⟩ h
  have hkept := ht.kept
  rw [hlist, if_neg hrest] at hkept
  exact hkept

/-- How often the separator is reported on which an item or its list is innermost. -/
theorem reportsOf_innermost {x : StateName} (hnested : Nested b s.context.active)
    (hd : s.context.character? = some list.separator) (hx : s.context.active.head? = some x)
    (hkind : x = list.state ∨ x = list.item ∨ x = list.itemValue)
    (h : handle grammar collector s = .ok () t) :
    reportsOf (list.separatorEvent s.context.location) t =
      reportsOf (list.separatorEvent s.context.location) s + if x = list.state then 0 else 1 := by
  obtain ⟨outer, hactive⟩ := List.head?_eq_some_iff.1 hx
  rw [hactive] at hnested
  rcases hkind with rfl | rfl | rfl
  · have hskip : (grammar list.state).actionFor [list.separator] = .skip := by
      cases list <;> rfl
    rw [handle_of_skip hd hx hskip] at h
    cases h
    rw [if_pos rfl]
    rfl
  · obtain ⟨rest, rfl, hrest⟩ := hnested.around_item
    rw [if_neg (by cases list <;> exact nofun)]
    exact reportsOf_separator hreads hactive hrest (.inl rfl) hd h
  · obtain ⟨rest, rfl, hitem⟩ : ∃ rest, outer = list.item :: rest ∧
        Nested b (list.item :: rest) := by
      cases list with
      | properties => exact hnested.holder_eq (y := .property) rfl (by decide)
      | headers => exact hnested.holder_eq (y := .header) rfl (by decide)
    obtain ⟨rest, rfl, hrest⟩ := hitem.around_item
    rw [if_neg (by cases list <;> exact nofun)]
    exact reportsOf_separator hreads hactive hrest (.inr rfl) hd h

end
end Machine

/-! ## Lines -/

section

variable {settings : Settings} {strict : Bool} {entrance : Entrance} {text : Text}
  {result : Result} {s : Session StateName (Reader × List Event)} {x : StateName}

/-- How often a separator is reported.  On every line that is accepted without substitution,
strictly or leniently: a separator that is handled by an item of its list, in its name or in its
value, is reported once at its place, and one that is handled by the list itself is not reported
there at all. -/
theorem separator_reported (list : ItemList) (hplain : settings.substitutes = false)
    (haccepted : (Event.ofLine settings strict entrance (some text)).2 = .ok result)
    (hs : s ∈ handledFrom grammar collector entrance.state (positionLimit settings text)
      (.start settings strict text ({}, [])))
    (hd : s.context.character? = some list.separator) (hx : s.context.active.head? = some x)
    (hkind : x = list.state ∨ x = list.item ∨ x = list.itemValue) :
    (Event.ofLine settings strict entrance (some text)).1.count
      (list.separatorEvent s.context.location) = if x = list.state then 0 else 1 := by
  have hsolid := isBlankText_of_handled hplain hs hd (by cases list <;> decide)
  have htracks := (tracks_of_handledFrom ((Reader.steady_collecting entrance).attends
    entrance.isRoot_state trivial) entrance.isRoot_state rfl rfl rfl hs).1
  exact count_of_handled hplain hsolid haccepted hs (list.marksAt_separatorEvent _) fun t hhandle =>
    reportsOf_innermost entrance.not_readsItems htracks.nested hd hx hkind hhandle

/-- The sessions in which the characters of a line are handled, strictly and without substitution. -/
def plainSessions (text : Text) : List (Session StateName (Reader × List Event)) :=
  handledFrom grammar collector Entrance.command.state (positionLimit {} text)
    (.start {} true text ({}, []))

/-- An operation with two properties. -/
def twoProperties : Text := [':', 'o', 'p', '(', 'a', ',', 'b', ')']

theorem separator_reported_of_two_properties : ({} : Settings).substitutes = false ∧
    (Event.ofLine {} true .command (some twoProperties)).2 =
        .ok { line := .ofText twoProperties, valueIndex := 6 } ∧
      ∃ s ∈ plainSessions twoProperties,
        s.context.character? = some ItemList.properties.separator ∧
          s.context.active.head? = some .property ∧
            (Event.ofLine {} true .command (some twoProperties)).1.count
              (.argumentSeparator s.context.location) = 1 := by
  have hread : (Event.ofLine {} true .command (some twoProperties)).2 =
      .ok { line := .ofText twoProperties, valueIndex := 6 } := by decide +kernel
  obtain ⟨s, hs, hd, hx⟩ : ∃ s ∈ plainSessions twoProperties,
      s.context.character? = some ItemList.properties.separator ∧
        s.context.active.head? = some .property := by decide +kernel
  exact ⟨rfl, hread, s, hs, hd, hx,
    separator_reported .properties rfl hread hs hd hx (.inr (.inl rfl))⟩

/-- An operation with nothing between two separators. -/
def emptyProperty : Text := [':', 'o', 'p', '(', 'a', ',', ',', 'b', ')']

/-- The second separator is passed over by the list: the line is accepted, and nothing is reported
at its place. -/
theorem not_separator_reported_of_empty_property :
    (Event.ofLine {} true .command (some emptyProperty)).2 =
        .ok { line := .ofText emptyProperty, valueIndex := 7 } ∧
      ∃ s ∈ plainSessions emptyProperty, s.context.character? = some ',' ∧
        s.context.active.head? = some .propertyList ∧
          (Event.ofLine {} true .command (some emptyProperty)).1.count
            (.argumentSeparator s.context.location) = 0 := by
  decide +kernel

end
end CommandLine
