/-
# `CommandLine.Proofs.HeaderLists` — where the header lists of a line begin and end

A line of headers alternates between gaps and header lists (`Alternates`).

    outside a list, a gap                 nothing                        (`found_of_gap`)
    outside a list, anything else         a list begins, and handles the
                                          character as its first one     (`found_of_opening`)
    inside a list                         it goes on, or ends on a `}`   (`found_of_inside`)
    the end of the line inside a list     strict reading fails           (`not_mem_of_finish`)

So a list need not begin with a `{`, and there may be several.  Inside a list a further state is
only ever entered from one that is inside as well, which is why no second list begins on the
character on which one ends: the guard `insideList` excludes it.

A `{` that comes while a list is innermost is passed over by the list, in any line: the brace that
a list is entered on has then been handled already.
-/
import CommandLine.Proofs.ListMarks

namespace CommandLine

open StateName Reader Reading Machine

/-! ## Header lists along a line -/

/-- The event reports where a header list begins or ends. -/
def Event.isHeaderListMark : Event → Bool
  | headerListStart _ | headerListEnd _ => true
  | _ => false

/-- What is reported of header lists, each given by its first and its last character. -/
def headerListMarks (lists : List (Nat × Nat)) : List Event :=
  lists.flatMap fun list => [.headerListStart list.1, .headerListEnd list.2]

/-- A character stands at the place, and it is no gap. -/
def SolidAt (text : Text) (place : Nat) : Prop :=
  ∃ d, text[place]? = some d ∧ Text.isGap d = false

/-- Up to a place the text alternates between gaps and lists, each of which begins with a
character that is no gap and ends with a `}`. -/
structure Alternates (text : Text) (place : Nat) (lists : List (Nat × Nat)) : Prop where
  begins : ∀ list ∈ lists, SolidAt text list.1
  ends : ∀ list ∈ lists, list.1 ≤ list.2 ∧ list.2 < place ∧ text[list.2]? = some '}'
  apart : lists.Pairwise fun before after => before.2 < after.1
  outside : ∀ i d, i < place → text[i]? = some d →
    (∀ list ∈ lists, ¬ (list.1 ≤ i ∧ i ≤ list.2)) → Text.isGap d = true

namespace Alternates

variable {text : Text} {place last : Nat} {lists : List (Nat × Nat)}

theorem start : Alternates text 0 [] where
  begins _ hlist := absurd hlist List.not_mem_nil
  ends _ hlist := absurd hlist List.not_mem_nil
  apart := .nil
  outside _ _ hi := absurd hi (Nat.not_lt_zero _)

theorem gap {d : Char} (h : Alternates text place lists) (hd : text[place]? = some d)
    (hgap : Text.isGap d = true) : Alternates text (place + 1) lists where
  begins := h.begins
  ends list hlist :=
    have ⟨hle, hlt, hclosing⟩ := h.ends list hlist
    ⟨hle, Nat.lt_succ_of_lt hlt, hclosing⟩
  apart := h.apart
  outside i e hi he houtside := by
    rcases Nat.lt_succ_iff_lt_or_eq.1 hi with hi | rfl
    · exact h.outside i e hi he houtside
    · obtain rfl : d = e := Option.some.inj (hd.symm.trans he)
      exact hgap

theorem list (h : Alternates text place lists) (hsolid : SolidAt text place)
    (hle : place ≤ last) (hclosing : text[last]? = some '}') :
    Alternates text (last + 1) (lists ++ [(place, last)]) where
  begins list hlist := by
    rcases List.mem_append.1 hlist with hlist | hlist
    · exact h.begins list hlist
    · obtain rfl := List.mem_singleton.1 hlist
      exact hsolid
  ends list hlist := by
    rcases List.mem_append.1 hlist with hlist | hlist
    · obtain ⟨hlist, hlt, hclosing⟩ := h.ends list hlist
      exact ⟨hlist, by omega, hclosing⟩
    · obtain rfl := List.mem_singleton.1 hlist
      exact ⟨hle, Nat.lt_succ_self _, hclosing⟩
  apart := by
    rw [List.pairwise_append]
    refine ⟨h.apart, List.pairwise_singleton _ _, fun before hbefore after hafter => ?_⟩
    obtain rfl := List.mem_singleton.1 hafter
    exact (h.ends before hbefore).2.1
  outside i e hi he houtside := by
    have hbefore : i < place := by
      by_contra hge
      exact houtside (place, last) (List.mem_append_right _ List.mem_cons_self)
        ⟨Nat.le_of_not_lt hge, Nat.le_of_lt_succ hi⟩
    exact h.outside i e hbefore he fun list hlist =>
      houtside list (List.mem_append_left _ hlist)

/-- At the end of a text it has all been looked at. -/
theorem whole (h : Alternates text place lists) (hend : text.length ≤ place) :
    Alternates text text.length lists where
  begins := h.begins
  ends list hlist :=
    have ⟨hle, _, hclosing⟩ := h.ends list hlist
    ⟨hle, (List.getElem?_eq_some_iff.1 hclosing).1, hclosing⟩
  apart := h.apart
  outside i d hi := h.outside i d (Nat.lt_of_lt_of_le hi hend)

/-- A line that holds more than blanks holds a list. -/
theorem ne_nil (h : Alternates text text.length lists)
    (hsolid : Text.isBlankText text = false) : lists ≠ [] := by
  rintro rfl
  rw [← Bool.not_eq_true] at hsolid
  refine hsolid (List.all_eq_true.2 fun d hd => ?_)
  obtain ⟨i, hi⟩ := List.getElem?_of_mem hd
  have hlt := (List.getElem?_eq_some_iff.1 hi).1
  exact Text.isBlank_of_isGap (h.outside i d hlt hi fun _ hlist => absurd hlist List.not_mem_nil)

end Alternates

/-! ## The states of a line of headers -/

namespace StateName

/-- The states that can be active in a line of headers. -/
def isHeaderPart : StateName → Bool
  | headers | headerList | header | headerValue | brackets | parentheses | braces | quotes
  | backQuotes | escape => true
  | _ => false

theorem isHeaderPart_of_mem_holds {x y : StateName} (hy : y.isHeaderPart = true)
    (held : x ∈ y.holds) : x.isHeaderPart = true := by
  have table : ∀ y ∈ all, y.isHeaderPart = true → ∀ x ∈ y.holds, x.isHeaderPart = true := by
    decide
  exact table y (mem_all y) hy x held

end StateName

namespace Nested

variable {outer active : List StateName}

theorem isHeaderPart (h : Nested headers active) : ∀ x ∈ active, x.isHeaderPart = true := by
  induction h with
  | bottom root => exact fun x hx => List.mem_singleton.1 hx ▸ rfl
  | inside held rest ih =>
    intro x hx
    rcases List.mem_cons.1 hx with rfl | hx
    · exact isHeaderPart_of_mem_holds (ih _ List.mem_cons_self) held
    · exact ih x hx

theorem around_headerList (h : Nested headers (headerList :: outer)) : outer = [headers] := by
  obtain ⟨y, rest, rfl, held, hy⟩ := h.holder rfl
  have holders : ∀ z ∈ StateName.all, z.isHeaderPart = true → headerList ∈ z.holds →
      z = headers := by
    decide
  obtain rfl := holders y (mem_all y) (hy.isHeaderPart _ List.mem_cons_self) held
  cases hy with
  | bottom root => rfl
  | inside held rest => exact nomatch isBase_eq_false held

/-- Inside a list the line of headers is not all that is active. -/
theorem one_lt_length (h : Nested headers active) (hmem : headerList ∈ active) :
    1 < active.length := by
  cases h with
  | bottom root => cases List.mem_singleton.1 hmem
  | inside held rest => exact Nat.succ_lt_succ (Nat.succ_pos _)

end Nested

/-! ## What is reported of header lists -/

/-- The beginnings and ends of header lists among some events. -/
def headerListMarksOf (events : List Event) : List Event := events.filter Event.isHeaderListMark

theorem Event.eq_of_isHeaderListMark {signal : Signal StateName} {e : Event} {place : Int}
    (h : Event.listMark? signal place = some e) (he : e.isHeaderListMark = true) :
    signal = .entered headerList ∨ signal = .leaving headerList := by
  unfold Event.listMark? at h
  split at h <;> cases h <;> first | exact .inl rfl | exact .inr rfl | cases he

section

variable {signal : Signal StateName} {c : Context StateName} {r : Reader} {events : List Event}

theorem headerListMarksOf_added (hentered : signal ≠ .entered headerList)
    (hleaving : signal ≠ .leaving headerList) :
    headerListMarksOf (events ++ added signal c r) = headerListMarksOf events := by
  have hnone : headerListMarksOf (added signal c r) = [] := by
    rw [headerListMarksOf, List.filter_eq_nil_iff]
    intro e hmem he
    have hmark : e.isListMark = true := by
      cases e <;> first | rfl | cases he
    rcases Event.eq_of_isHeaderListMark ((tells_of_mem_added hmem).listMark?_eq hmark) he with h | h
    · exact hentered h
    · exact hleaving h
  rw [headerListMarksOf, List.filter_append]
  exact (congrArg _ hnone).trans (List.append_nil _)

theorem added_entered_headerList :
    added (.entered headerList) c r = [.headerListStart c.location] := rfl

theorem added_leaving_headerList (hinside : c.atEnd = false) :
    added (.leaving headerList) c r = [.headerListEnd c.location] := by
  obtain ⟨event, -, hadded⟩ := added_leaving_list (x := headerList) (r := r) (.inr rfl) hinside
  have htells := tells_of_mem_added (hadded ▸ List.mem_cons_self : event ∈ _)
  rw [hadded]
  exact congrArg (fun e => [e]) htells

end

/-! ## One character inside a list -/

/-- What can be told on a character inside a list: no second list is entered, and the list is left
on a `}`. -/
def insideList (d : Char) : Signal StateName → List StateName → Prop
  | .entered x, active => Nested headers active ∧ x ≠ headerList
  | .leaving x, active => Nested headers active ∧ x ≠ headers ∧ (x = headerList → d = '}')
  | _, active => Nested headers active

theorem guides_insideList {d : Char} : Guides headers true false (some d) (insideList d) where
  leaving {x outer} _ hroot hcloses h := by
    refine ⟨h, ?_, ?_⟩
    · rintro rfl
      cases hroot
    · rintro rfl
      exact beq_iff_eq.1 (hcloses d rfl)
  arguments _ _ h := ⟨h, nofun⟩
  entered {_ x y outer} hbase _ _ h := by
    refine ⟨h, ?_⟩
    rintro rfl
    obtain rfl : y = headers := (List.cons.inj h.around_headerList).1
    exact nomatch hbase rfl
  content h := h
  itemEnd h := h
  nameEnd h := h

/-- Inside a list the marks stay what they are until the list is left, on a `}`. -/
def Within (d : Char) (place : Nat) (marks : List Event) (active : List StateName)
    (events : List Event) : Prop :=
  headerList ∈ active ∧ headerListMarksOf events = marks ∨
    d = '}' ∧ active = [headers] ∧ headerListMarksOf events = marks ++ [.headerListEnd place]

namespace Machine

variable {text : Text} {place : Nat} {d : Char} {limit : Nat} {f : Footing}
  {active : List StateName} {events : List Event}
  {s t u : Session StateName (Reader × List Event)}

theorem governs_insideList (hd : f.character? place = some d) (marks : List Event) :
    Governs grammar collector { guard := insideList d, reads := ReadsItems headers }
      (f.character? place) (StandsWith (Within d place marks) f place) (fun _ _ => True) := by
  refine governs_accepted Entrance.headers.not_readsItems f place ?_ ?_
  · rintro c r x outer events rfl rfl - ⟨hnested, hx⟩ hevents
    rcases hevents with ⟨hmem, hmarks⟩ | ⟨-, rfl, -⟩
    · refine .inl ⟨List.mem_cons_of_mem _ hmem, ?_⟩
      rwa [headerListMarksOf_added (fun h => hx (Signal.entered.inj h)) nofun]
    · cases hnested with
      | inside held rest => exact absurd (List.mem_singleton.1 held) hx
  · rintro c r x outer events rfl rfl - ⟨hnested, hx, hcloses⟩ hevents
    rcases hevents with ⟨hmem, hmarks⟩ | ⟨-, houter, -⟩
    · by_cases hlist : x = headerList
      · subst hlist
        have hinside : c.atEnd = false := by
          rw [Context.atEnd_eq_isNone, show c.character? = some d from hd]
          rfl
        refine .inr ⟨hcloses rfl, hnested.around_headerList, ?_⟩
        rw [added_leaving_headerList hinside, headerListMarksOf, List.filter_append, ← hmarks]
        rfl
      · refine .inl ⟨(List.mem_cons.1 hmem).resolve_left (Ne.symm hlist), ?_⟩
        have hentered : Signal.leaving x ≠ .entered headerList := nofun
        rwa [headerListMarksOf_added hentered fun h => hlist (Signal.leaving.inj h)]
    · exact absurd (List.cons.inj houter).1 hx

/-- A character that is handled inside a list. -/
theorem within_of_handle (hnested : Nested headers s.context.active)
    (hmem : headerList ∈ s.context.active) (hd : s.context.character? = some d)
    (h : handle grammar collector s = .ok () t) :
    Nested headers t.context.active ∧
      Within d s.context.location (headerListMarksOf s.gathered.2) t.context.active
        t.gathered.2 := by
  have hcharacter : s.context.footing.character? s.context.location = some d := hd
  have hbases : ∀ x ∈ s.context.active.head?, x.isBase = true → false = true := by
    intro x hx hbase
    obtain ⟨outer, hactive⟩ := List.head?_eq_some_iff.1 hx
    rw [hactive] at hnested hmem
    cases hnested with
    | bottom root => cases List.mem_singleton.1 hmem
    | inside held rest => exact (isBase_eq_false held).symm.trans hbase
  obtain ⟨hinner, ht⟩ := ok_of_handle (governs_insideList hcharacter _)
    (hcharacter ▸ secure_dispatch guides_insideList hnested (fun _ _ _ => rfl) hbases
      fun _ hinner => hinner) ⟨rfl, rfl, rfl, .inl ⟨hmem, rfl⟩⟩ h
  exact ⟨hinner, ht.kept⟩

/-! ## One character outside a list -/

/-- A line of headers opens a list on whatever is no gap. -/
theorem actionFor_headers (hsolid : Text.isGap d = false) :
    (grammar headers).actionFor [d] = .enter headerList := by
  rw [State.actionFor_singleton, hsolid]
  rfl

/-- The list is entered, and handles the character as its first one. -/
theorem ends_opening_list (hactive : s.context.active = [headers])
    (hd : s.context.character? = some d) (hsolid : Text.isGap d = false) :
    Reaches (StandsWith (Within d s.context.location
        (headerListMarksOf s.gathered.2 ++ [.headerListStart s.context.location]))
        s.context.footing s.context.location) (fun _ _ => True) (Nested headers)
      (dispatch grammar collector) s := by
  have hcharacter : s.context.footing.character? s.context.location = some d := hd
  have hnested : Nested headers [headerList, headers] := .inside (by decide) (.bottom rfl)
  have hdispatch : dispatch grammar collector s =
      enterBy grammar collector (actUpTo grammar collector (986 + 3 * headerList.height + 9 + 1))
        headerList s := by
    obtain ⟨frame, hframe, hstate⟩ := Context.frame?_of_active hactive
    have hone : s.context.character = [d] := congrArg Option.toList hd
    rw [dispatch, dispatchBy_eq, context_bind_apply, hframe, hone]
    dsimp only
    rw [hstate, actionFor_headers hsolid]
    rfl
  refine .of_eq hdispatch ?_
  rw [enterBy_eq_announce, announce, bind_assoc]
  refine (ends_opening (J := fun _ g => g.2 = s.gathered.2) headerList
    ⟨rfl, rfl, hactive, rfl⟩ trivial).bind fun _ t ht => ?_
  refine (ends_tell_accepted (P := fun events => headerListMarksOf events =
    headerListMarksOf s.gathered.2 ++ [.headerListStart s.context.location])
    (ht.imp fun _ => trivial) fun _ => ?_).bind fun _ u hu => ?_
  · rw [ht.kept, added_entered_headerList, ht.location_eq, headerListMarksOf, List.filter_append]
    rfl
  · have hfirst : Secure grammar (insideList d) (ReadsItems headers)
        (s.context.footing.character? s.context.location) (986 + 3 * headerList.height + 9 + 1)
        .dispatch (Nested headers) [headerList, headers] := by
      rw [hcharacter, secure_dispatch_succ]
      exact secure_actionFor guides_insideList 986 hnested (fun _ => rfl) Bool.noConfusion
        fun _ h => h
    exact (governs_insideList hcharacter _).actUpTo _ hfirst
      ⟨hu.footing_eq, hu.location_eq, hu.active_eq, .inl ⟨List.mem_cons_self, hu.kept⟩⟩

/-- A character on which a list begins. -/
theorem within_of_opening (hactive : s.context.active = [headers])
    (hd : s.context.character? = some d) (hsolid : Text.isGap d = false)
    (h : handle grammar collector s = .ok () t) :
    Nested headers t.context.active ∧
      Within d s.context.location
        (headerListMarksOf s.gathered.2 ++ [.headerListStart s.context.location])
        t.context.active t.gathered.2 := by
  obtain ⟨_, u, hdispatch, hadvance⟩ := ok_of_bind h
  obtain ⟨inner, hinner, hu⟩ := (ends_opening_list hactive hd hsolid).ok hdispatch
  obtain ⟨-, rfl⟩ := eq_of_advance hadvance
  obtain rfl := hu.active_eq
  exact ⟨hinner, hu.kept⟩

/-! ## The walk along a line -/

/-- What has been found up to a place: outside a list all lists are complete, inside one the last
has only begun. -/
def Found (text : Text) (place : Nat) (active : List StateName) (events : List Event) : Prop :=
  (active = [headers] ∧ ∃ lists, Alternates text place lists ∧
      headerListMarksOf events = headerListMarks lists) ∨
    headerList ∈ active ∧ ∃ lists first, first < place ∧ Alternates text first lists ∧
      SolidAt text first ∧
        headerListMarksOf events = headerListMarks lists ++ [.headerListStart first]

/-- A character inside a list leads on in it or ends it. -/
theorem found_of_within {lists : List (Nat × Nat)} {first : Nat} (hle : first ≤ place)
    (halternates : Alternates text first lists) (hsolid : SolidAt text first)
    (hd : text[place]? = some d)
    (h : Within d place (headerListMarks lists ++ [.headerListStart first]) active events) :
    Found text (place + 1) active events := by
  rcases h with ⟨hmem, hmarks⟩ | ⟨rfl, hactive, hmarks⟩
  · exact .inr ⟨hmem, lists, first, Nat.lt_succ_of_le hle, halternates, hsolid, hmarks⟩
  · refine .inl ⟨hactive, lists ++ [(first, place)], halternates.list hsolid hle hd, ?_⟩
    rw [hmarks, headerListMarks, headerListMarks, List.flatMap_append, List.append_assoc]
    rfl

/-- What has been found stays right on every character. -/
theorem found_of_handle (hd : s.context.character? = some d)
    (hnested : Nested headers s.context.active)
    (hfound : Found s.context.input s.context.location s.context.active s.gathered.2)
    (h : handle grammar collector s = .ok () t) :
    Nested headers t.context.active ∧
      Found s.context.input (s.context.location + 1) t.context.active t.gathered.2 := by
  rcases hfound with ⟨hactive, lists, halternates, hmarks⟩ |
    ⟨hmem, lists, first, hlt, halternates, hsolid, hmarks⟩
  · cases hgap : Text.isGap d with
    | true =>
      have hskip : (grammar headers).actionFor [d] = .skip := by
        rw [State.actionFor_singleton, hgap]
        rfl
      rw [handle_of_skip hd (congrArg List.head? hactive) hskip] at h
      cases h
      exact ⟨hnested, .inl ⟨hactive, lists, halternates.gap hd hgap, hmarks⟩⟩
    | false =>
      obtain ⟨hinner, hwithin⟩ := within_of_opening hactive hd hgap h
      rw [hmarks] at hwithin
      exact ⟨hinner, found_of_within (Nat.le_refl _) halternates ⟨d, hd, hgap⟩ hd hwithin⟩
  · obtain ⟨hinner, hwithin⟩ := within_of_handle hnested hmem hd h
    rw [hmarks] at hwithin
    exact ⟨hinner, found_of_within (Nat.le_of_lt hlt) halternates hsolid hd hwithin⟩

theorem found_of_walk (hplain : s.context.settings.substitutes = false)
    (hnested : Nested headers s.context.active)
    (hfound : Found s.context.input s.context.location s.context.active s.gathered.2)
    (h : walk grammar collector limit s = .ok () u) :
    u.context.footing = s.context.footing ∧ Nested headers u.context.active ∧
      u.context.atEnd = true ∧
        Found s.context.input u.context.location u.context.active u.gathered.2 := by
  induction limit generalizing s with
  | zero =>
    rcases walk_cases_of_plain hplain h with ⟨rfl, hend, -⟩ | ⟨rest, t, hlimit, -⟩
    · exact ⟨rfl, hnested, hend, hfound⟩
    · cases hlimit
  | succ limit ih =>
    rcases walk_cases_of_plain hplain h with ⟨rfl, hend, -⟩ | ⟨rest, t, hlimit, hround⟩
    · exact ⟨rfl, hnested, hend, hfound⟩
    · obtain rfl : limit = rest := Nat.succ.inj hlimit
      obtain ⟨hinside, hhandle, hwalk, -⟩ := hround
      rw [Context.atEnd_eq_isNone, Option.isNone_eq_false_iff, Option.isSome_iff_exists] at hinside
      obtain ⟨d, hd⟩ := hinside
      obtain ⟨hfooting, hlocation⟩ := after_handle (Reader.isLocal_listener _) hhandle
      obtain ⟨hinner, hnext⟩ := found_of_handle hd hnested hfound hhandle
      have hsettings : t.context.settings = s.context.settings :=
        congrArg Footing.settings hfooting
      have hinput : t.context.input = s.context.input :=
        congrArg (fun f => f.line.substituted) hfooting
      rw [← hinput, ← hlocation] at hnext
      rw [← hinput, ← hfooting]
      exact ih (hsettings ▸ hplain) hinner hnext hwalk

/-! ## The end of the line -/

/-- At the end of a line of headers no state goes on by being left. -/
theorem secure_onReturn_at_end {guard : Signal StateName → List StateName → Prop}
    {reads : List StateName → Prop} {x : StateName} {outer : List StateName} {n : Nat}
    {Q : List StateName → Prop} (hx : x.isHeaderPart = true) (hQ : Q (x :: outer)) :
    Secure grammar guard reads none (n + 1) (grammar x).onReturn Q (x :: outer) := by
  cases x <;> first | exact hQ | cases hx

/-- Strict reading finds the list unfinished. -/
theorem ends_headerList {outer : List StateName} (hstrict : f.strict = true)
    (hs : StandsWith (fun _ _ => True) f place (headerList :: outer) s) :
    Ends (fun _ _ => True) (fun _ _ => False) (endState grammar collector) s := by
  obtain ⟨frame, hframe, hstate⟩ := Context.frame?_of_active hs.active_eq
  rw [endState, frame_bind_eq]
  refine .read ?_
  rw [hframe]
  show Ends _ _ (act grammar collector (grammar frame.state).onEnd) s
  rw [hstate]
  show Ends _ _ (notFinished ['}']) s
  rw [notFinished, frame_bind_eq]
  refine .read ?_
  rw [hframe]
  refine .complain (fun _ => trivial) fun hlenient => ?_
  have hstrictly : s.context.strict = true :=
    (congrArg Footing.strict hs.footing_eq).trans hstrict
  rw [hstrictly] at hlenient
  cases hlenient

/-- A header list is not left at the end of the line: strict reading finds it unfinished. -/
theorem ends_unwind_unfinished (hstrict : f.strict = true) (hend : f.character? place = none)
    (hnested : Nested headers active) (hmem : headerList ∈ active)
    (hs : StandsWith (fun _ _ => True) f place active s) :
    Ends (fun _ _ => True) (fun _ _ => False) (unwind grammar collector limit) s := by
  have governs : Governs grammar collector
      { guard := fun _ => Nested headers, reads := ReadsItems headers } (f.character? place)
      (StandsWith (fun _ _ => True) f place) fun _ _ => True :=
    governs_accepted Entrance.headers.not_readsItems f place (fun _ _ _ _ _ => trivial)
      fun _ _ _ _ _ => trivial
  rw [hend] at governs
  induction limit generalizing active s with
  | zero =>
    refine .read ?_
    rw [depth_of_active hs.active_eq, if_pos (hnested.one_lt_length hmem)]
    exact .of_error rfl trivial
  | succ limit ih =>
    have hdeep := hnested.one_lt_length hmem
    refine .read ?_
    rw [depth_of_active hs.active_eq, if_pos hdeep]
    cases hnested with
    | bottom root => cases List.mem_singleton.1 hmem
    | @inside x y outer held rest =>
      by_cases hlist : x = headerList
      · subst hlist
        exact (ends_headerList hstrict hs).bind fun _ _ h => h.elim
      · refine (governs.endState_same (.inside held rest) hs).bind fun _ t ht => ?_
        obtain ⟨_, rfl, ht⟩ := ht
        refine .read ?_
        rw [depth_of_active ht.active_eq, if_pos hdeep]
        have hkept : headerList ∈ y :: outer := (List.mem_cons.1 hmem).resolve_left (Ne.symm hlist)
        have hleave : Secure grammar (fun _ => Nested headers) (ReadsItems headers) none
            (actionLimit + 1) .leave (fun inner => Nested headers inner ∧ headerList ∈ inner)
            (x :: y :: outer) :=
          secure_leave (n := 999) (.inside held rest) (secure_onReturn_at_end
            (rest.isHeaderPart y List.mem_cons_self) ⟨rest, hkept⟩)
        rw [secure_leave_succ] at hleave
        refine (Ends.discard (governs.leave hleave ht)).bind fun _ u hu => ?_
        obtain ⟨inner, ⟨hinner, hstill⟩, hu⟩ := hu
        exact ih hinner hstill hu

/-- At the end of a line that strict reading accepts all lists are complete. -/
theorem found_of_finish (hstrict : s.context.strict = true) (hend : s.context.atEnd = true)
    (hnested : Nested headers s.context.active)
    (hfound : Found text s.context.location s.context.active s.gathered.2)
    (h : finish grammar collector s = .ok () t) :
    ∃ lists, Alternates text s.context.location lists ∧
      headerListMarksOf t.gathered.2 = headerListMarks lists := by
  rw [Context.atEnd_eq_isNone, Option.isNone_iff_eq_none] at hend
  have hnone : s.context.footing.character? s.context.location = none := hend
  have hclosed : headerList ∉ s.context.active := by
    intro hmem
    have hunwind : Ends (fun _ _ => True) (fun _ _ => False) (unwind grammar collector
        (unwindLimit s.context.settings s.context.stack.depth)) s :=
      ends_unwind_unfinished hstrict hnone hnested hmem ⟨rfl, rfl, rfl, trivial⟩
    have hfinish : Ends (fun _ _ => True) (fun _ _ => False) (finish grammar collector) s :=
      .read (hunwind.bind fun _ _ hfalse => hfalse.elim)
    exact hfinish.ok h
  obtain ⟨-, lists, halternates, hmarks⟩ := hfound.resolve_right fun hinside => hclosed hinside.1
  have governs : Governs grammar collector
      { guard := fun signal active => Nested headers active ∧ ∀ x, signal ≠ .entered x,
        reads := ReadsItems headers } (s.context.footing.character? s.context.location)
      (StandsWith (fun active events => headerList ∉ active ∧
        headerListMarksOf events = headerListMarks lists) s.context.footing s.context.location)
      fun _ _ => True := by
    refine governs_accepted Entrance.headers.not_readsItems _ _
      (fun _ _ _ hguard => absurd rfl (hguard.2 _)) fun {c r x outer events} _ _ _ _ hevents => ?_
    have hne : x ≠ headerList := fun hx => hevents.1 (hx ▸ List.mem_cons_self)
    have hentered : Signal.leaving x ≠ .entered headerList := nofun
    refine ⟨fun hmem => hevents.1 (List.mem_cons_of_mem _ hmem), ?_⟩
    rw [headerListMarksOf_added hentered fun heq => hne (Signal.leaving.inj heq)]
    exact hevents.2
  rw [hnone] at governs
  obtain ⟨_, -, ht⟩ := (governs.finish (fun hinner => ⟨hinner, nofun⟩) hnested
    ⟨rfl, rfl, rfl, hclosed, hmarks⟩).ok h
  exact ⟨lists, halternates, ht.kept.2⟩

end Machine

/-! ## Lines -/

section

variable {settings : Settings} {strict : Bool} {entrance : Entrance} {text : Text}
  {result : Result} {s : Session StateName (Reader × List Event)}

/-- A line of headers that strict reading accepts alternates between gaps and the header lists that
it reports. -/
theorem exists_lists_of_ofLine (hplain : settings.substitutes = false)
    (hsolid : Text.isBlankText text = false)
    (haccepted : (Event.ofLine settings true .headers (some text)).2 = .ok result) :
    ∃ lists, lists ≠ [] ∧ Alternates text text.length lists ∧
      headerListMarksOf (Event.ofLine settings true .headers (some text)).1 =
        headerListMarks lists := by
  obtain ⟨first, last, final, henter, -, hwalk, hfinish, hevents⟩ :=
    exists_run_of_ofLine hsolid haccepted
  have hfirst := ok_of_enter (P := fun events => headerListMarksOf events = [])
    (fun events hformats => List.filter_eq_nil_iff.2 fun e hmem => by
      obtain ⟨format, rfl⟩ := hformats e hmem
      exact nofun) henter
  have hinput : first.context.input = text :=
    congrArg (fun f => f.line.substituted) hfirst.footing_eq
  have hsettings : first.context.settings = settings :=
    congrArg Footing.settings hfirst.footing_eq
  have hstart : Found first.context.input first.context.location first.context.active
      first.gathered.2 := by
    rw [hfirst.location_eq, hfirst.active_eq]
    exact .inl ⟨rfl, [], .start, hfirst.kept⟩
  have hnested : Nested headers first.context.active := hfirst.active_eq ▸ .bottom rfl
  obtain ⟨hfooting, hinner, hend, hfound⟩ :=
    found_of_walk (hsettings ▸ hplain) hnested hstart hwalk
  have hstrict : last.context.strict = true :=
    congrArg Footing.strict (hfooting.trans hfirst.footing_eq)
  obtain ⟨lists, halternates, hmarks⟩ := found_of_finish hstrict hend hinner hfound hfinish
  have hlength : text.length ≤ last.context.location := by
    rw [Context.atEnd_eq_isNone, Option.isNone_iff_eq_none] at hend
    have hlast : last.context.input = text :=
      (congrArg (fun f => f.line.substituted) hfooting).trans hinput
    rw [← hlast]
    exact List.getElem?_eq_none_iff.1 hend
  rw [hinput] at halternates
  have hwhole := halternates.whole hlength
  refine ⟨lists, hwhole.ne_nil hsolid, hwhole, ?_⟩
  rw [hevents, headerListMarksOf, List.filter_append]
  exact (List.append_nil _).trans hmarks

/-- A `{` that comes while a header list is innermost is passed over: it is not the brace of any
list. -/
theorem count_headerListStart_of_innermost (hplain : settings.substitutes = false)
    (haccepted : (Event.ofLine settings strict entrance (some text)).2 = .ok result)
    (hs : s ∈ handledFrom grammar collector entrance.state (positionLimit settings text)
      (.start settings strict text ({}, [])))
    (hd : s.context.character? = some '{') (hx : s.context.active.head? = some headerList) :
    (Event.ofLine settings strict entrance (some text)).1.count
      (.headerListStart s.context.location) = 0 := by
  have hsolid := isBlankText_of_handled hplain hs hd (by decide)
  refine count_of_handled hplain hsolid haccepted hs ⟨rfl, rfl⟩ fun t hhandle => ?_
  rw [handle_of_skip hd hx rfl] at hhandle
  cases hhandle
  rfl

/-- Where header lists begin and end.  On every line without substitution that is not blank and
that strict reading accepts as a line of headers, the lists that are reported alternate with gaps:
each begins with a character that is no gap, whatever it is, and ends with a `}`.  On every line
that is accepted, a `{` that comes while a header list is innermost begins no list. -/
theorem header_lists_alternate (hplain : settings.substitutes = false) :
    (∀ text result, Text.isBlankText text = false →
      (Event.ofLine settings true .headers (some text)).2 = .ok result →
      ∃ lists, lists ≠ [] ∧ Alternates text text.length lists ∧
        headerListMarksOf (Event.ofLine settings true .headers (some text)).1 =
          headerListMarks lists) ∧
    ∀ strict entrance text result,
      (Event.ofLine settings strict entrance (some text)).2 = .ok result →
      ∀ s ∈ handledFrom grammar collector entrance.state (positionLimit settings text)
          (.start settings strict text ({}, [])),
        s.context.character? = some '{' → s.context.active.head? = some headerList →
          (Event.ofLine settings strict entrance (some text)).1.count
            (.headerListStart s.context.location) = 0 :=
  ⟨fun _ _ hsolid haccepted => exists_lists_of_ofLine hplain hsolid haccepted,
    fun _ _ _ _ haccepted _ hs hd hx =>
      count_headerListStart_of_innermost hplain haccepted hs hd hx⟩

/-- The sessions in which the characters of a line of headers are handled, strictly and without
substitution. -/
def headerSessions (text : Text) : List (Session StateName (Reader × List Event)) :=
  handledFrom grammar collector Entrance.headers.state (positionLimit {} text)
    (.start {} true text ({}, []))

/-- Two header lists, the second one without a brace to open it. -/
def twoHeaderLists : Text := ['{', 'a', '}', ' ', 'b', '}']

/-- A header list with one brace too many. -/
def doubleBrace : Text := ['{', '{', 'a', '}']

theorem header_lists_alternate_of_twoHeaderLists : ({} : Settings).substitutes = false ∧
    Text.isBlankText twoHeaderLists = false ∧
      (Event.ofLine {} true .headers (some twoHeaderLists)).2 =
        .ok { line := .ofText twoHeaderLists, valueIndex := 4 } ∧
      (∃ lists, lists ≠ [] ∧ Alternates twoHeaderLists twoHeaderLists.length lists ∧
        headerListMarksOf (Event.ofLine {} true .headers (some twoHeaderLists)).1 =
          headerListMarks lists) ∧
      (Event.ofLine {} true .headers (some doubleBrace)).2 =
        .ok { line := .ofText doubleBrace, valueIndex := 2 } ∧
      ∃ s ∈ headerSessions doubleBrace, s.context.character? = some '{' ∧
        s.context.active.head? = some headerList ∧
          (Event.ofLine {} true .headers (some doubleBrace)).1.count
            (.headerListStart s.context.location) = 0 := by
  have htwo : (Event.ofLine {} true .headers (some twoHeaderLists)).2 =
      .ok { line := .ofText twoHeaderLists, valueIndex := 4 } := by decide +kernel
  have hdouble : (Event.ofLine {} true .headers (some doubleBrace)).2 =
      .ok { line := .ofText doubleBrace, valueIndex := 2 } := by decide +kernel
  obtain ⟨s, hs, hd, hx⟩ : ∃ s ∈ headerSessions doubleBrace,
      s.context.character? = some '{' ∧ s.context.active.head? = some headerList := by
    decide +kernel
  have hlists := @header_lists_alternate {} rfl
  exact ⟨rfl, by decide, htwo, hlists.1 _ _ (by decide) htwo, hdouble, s, hs, hd, hx,
    hlists.2 _ _ _ _ hdouble s hs hd hx⟩

/-- A header list without the brace that opens it. -/
def openHeaderList : Text := ['a', '}']

/-- A line of headers need not begin with a `{`: the list is said to begin with its first name. -/
theorem not_header_list_of_openHeaderList :
    (Event.ofLine {} true .headers (some openHeaderList)).2 =
        .ok { line := .ofText openHeaderList, valueIndex := 0 } ∧
      '{' ∉ openHeaderList ∧
        .headerListStart 0 ∈ (Event.ofLine {} true .headers (some openHeaderList)).1 := by
  decide +kernel

end
end CommandLine
