/-
# `CommandLine.Proofs.ListMarks` — what a run reports of its lists, character by character

The marks of a list are its delimiters and its separators.  Each is reported while the cursor
stands on it (`Reading.Tells.listMark?_eq`), so what a run reports of the mark at a place is decided
when the character there is handled:

    before the place    other places are reported                  (`reportsOf_walk_through`)
    at the place        whatever the innermost state does there
    behind the place    other places are reported                  (`reportsOf_walk`)
    at the end          other places are reported                  (`reportsOf_finish`)

`count_of_handled` puts these together for a line that is accepted without substitution.
-/
import CommandLine.Proofs.Growth
import CommandLine.Proofs.Offsets

namespace CommandLine

open StateName Reader Reading Machine

/-! ## The marks of a list -/

/-- The event reports a separator or a delimiter of a list. -/
def Event.isListMark : Event → Bool
  | argumentSeparator _ | headerSeparator _ | propertyListStart _ | propertyListEnd _
  | headerListStart _ | headerListEnd _ => true
  | _ => false

/-- The mark of a list that stands at a place. -/
def Event.MarksAt (e : Event) (place : Nat) : Prop :=
  e.isListMark = true ∧ e.offset? = some ↑place

/-- The mark of a list that can be reported on a signal, at the place of the cursor. -/
def Event.listMark? : Signal StateName → Int → Option Event
  | .entered .argumentList, place | .leaving .argument, place | .leaving .argumentValue, place
  | .leaving .property, place => some (.argumentSeparator place)
  | .entered .propertyList, place => some (.propertyListStart place)
  | .leaving .propertyList, place => some (.propertyListEnd place)
  | .leaving .header, place => some (.headerSeparator place)
  | .entered .headerList, place => some (.headerListStart place)
  | .leaving .headerList, place => some (.headerListEnd place)
  | _, _ => none

/-- A mark is neither a part of an address nor an argument nor a header. -/
theorem Event.of_isListMark {e : Event} (he : e.isListMark = true) :
    e.part = .rest ∧ e.reportsArgument = false ∧ e.reportsHeader = false := by
  cases e <;> first | exact ⟨rfl, rfl, rfl⟩ | cases he

theorem Event.offset_of_listMark? {signal : Signal StateName} {e : Event} {place : Int}
    (h : Event.listMark? signal place = some e) : e.offset? = some place := by
  unfold Event.listMark? at h
  split at h <;> cases h <;> rfl

/-- Each signal has one mark at most. -/
theorem Reading.Tells.listMark?_eq {c : Context StateName} {signal : Signal StateName} {e : Event}
    (h : Tells c signal e) (he : e.isListMark = true) :
    Event.listMark? signal c.location = some e := by
  obtain ⟨hpart, hargument, hheader⟩ := Event.of_isListMark he
  cases signal with
  | entered x =>
    cases x with
    | command =>
      obtain ⟨format, rfl⟩ := h
      cases he
    | nodeSeparator => rcases h with rfl | rfl <;> cases he
    | operationSeparator =>
      cases h
      cases he
    | argumentList | propertyList | headerList => exact congrArg some h.symm
    | _ => exact h.elim
  | leaving x =>
    cases x with
    | node | commandName | operationName => exact nomatch h.symm.trans hpart
    | argument | argumentValue | property =>
      rcases h with h | rfl
      · exact nomatch h.symm.trans hargument
      · rfl
    | header =>
      rcases h with h | rfl
      · exact nomatch h.symm.trans hheader
      · rfl
    | propertyList | headerList => exact congrArg some h.symm
    | outputTarget =>
      obtain ⟨i, target, rfl⟩ := h
      cases he
    | _ => exact h.elim
  | _ => exact h.elim

/-- Where the cursor does not stand no mark is reported. -/
theorem Event.MarksAt.not_mem_added {e : Event} {place : Nat} (he : e.MarksAt place)
    {signal : Signal StateName} {c : Context StateName} {r : Reader} (hne : c.location ≠ place) :
    e ∉ added signal c r := by
  intro hmem
  have hoffset := Event.offset_of_listMark? ((tells_of_mem_added hmem).listMark?_eq he.1)
  exact hne (Int.ofNat_inj.1 (Option.some.inj (he.2.symm.trans hoffset))).symm

/-! ## What a run gathers on one character -/

namespace Machine

/-- A character that means nothing to the innermost state is passed over. -/
theorem handle_of_skip {τ : Type} {L : Listener StateName τ} {s : Session StateName τ}
    {x : StateName} {d : Char} (hd : s.context.character? = some d)
    (hx : s.context.active.head? = some x) (hskip : (grammar x).actionFor [d] = .skip) :
    handle grammar L s =
      .ok () { s with context := { s.context with location := s.context.location + 1 } } := by
  obtain ⟨outer, hactive⟩ := List.head?_eq_some_iff.1 hx
  obtain ⟨frame, hframe, rfl⟩ := Context.frame?_of_active hactive
  have hdispatch : dispatch grammar L s = .ok () s := by
    have hcharacter : s.context.character = [d] := congrArg Option.toList hd
    rw [dispatch, dispatchBy_eq, context_bind_apply, hframe, hcharacter]
    dsimp only
    rw [hskip]
    rfl
  rw [handle, bind_apply_of_ok hdispatch, advance_apply, Context.atEnd_eq_isNone, hd]
  rfl

section

variable {b : StateName} {guard : Signal StateName → List StateName → Prop}
  {J : List StateName → List Event → Prop} {f : Footing} {location : Nat}
  {active : List StateName} {s : Session StateName (Reader × List Event)}

/-- The session stands there, and `J` holds of its events. -/
abbrev StandsWith (J : List StateName → List Event → Prop) (f : Footing)
    (location : Nat) (active : List StateName)
    (s : Session StateName (Reader × List Event)) : Prop :=
  s.Stands (fun active g => J active g.2) f location active

/-- A signal that is accepted adds its events. -/
theorem ends_tell_accepted {P : List Event → Prop} {signal : Signal StateName}
    (hs : s.Stands (fun _ _ => True) f location active)
    (hkept : (s.gathered.1.hear signal s.context).2 = none →
      P (s.gathered.2 ++ added signal s.context s.gathered.1)) :
    Ends (fun _ _ => True) (fun _ => StandsWith (fun _ => P) f location active)
      (tell collector signal) s := by
  have hhear := hear_collector signal s.context s.gathered
  refine .tell (fun hv => ?_) (fun {e} hv => ?_) fun _ => trivial
  · refine ⟨hs.footing_eq, hs.location_eq, hs.active_eq, ?_⟩
    rw [heard, hhear]
    refine hkept ?_
    rw [hhear] at hv
    cases he : (s.gathered.1.hear signal s.context).2 with
    | none => rfl
    | some e =>
      rw [he] at hv
      cases hv
  · rw [hhear] at hv
    cases he : (s.gathered.1.hear signal s.context).2 <;> (rw [he] at hv; cases hv)

/-- What each state that is entered or left keeps, an action keeps unless it fails. -/
theorem governs_accepted (hreads : ∀ active, ¬ ReadsItems b active) (f : Footing) (location : Nat)
    (henters : ∀ {c r x outer events}, c.footing = f → c.location = location →
      c.active = x :: outer → guard (.entered x) (x :: outer) → J outer events →
        J (x :: outer) (events ++ added (.entered x) c r))
    (hleaves : ∀ {c r x outer events}, c.footing = f → c.location = location →
      (r.hear (.leaving x) c).2 = none → guard (.leaving x) (x :: outer) →
        J (x :: outer) events → J outer (events ++ added (.leaving x) c r)) :
    Governs grammar collector { guard := guard, reads := ReadsItems b } (f.character? location)
      (StandsWith J f location) (fun _ _ => True) where
  active_eq hs := hs.active_eq
  character_eq hs := character?_of_stands hs
  literal _ _ := trivial
  enters {x outer s} hguard hs := by
    refine (ends_opening x hs trivial).bind fun _ t ht => ?_
    refine (ends_tell_accepted (ht.imp fun _ => trivial) fun _ => ?_).mono (fun _ _ h => h)
      fun _ u hu => ⟨hu.footing_eq, hu.location_eq, hu.active_eq, hu.kept⟩
    exact henters ht.footing_eq ht.location_eq ht.active_eq hguard ht.kept
  leaves {x outer s} hguard hs := by
    refine (ends_tell_accepted (P := J outer) (hs.imp fun _ => trivial) fun haccepts => ?_).bind
      fun _ t ht => ends_closing ⟨ht.footing_eq, ht.location_eq, ht.active_eq, ht.kept⟩
    exact hleaves hs.footing_eq hs.location_eq haccepts hguard hs.kept
  tells {signal active s} hstill hguard hs := by
    refine (ends_tell_accepted (P := J active) (hs.imp fun _ => trivial) fun _ => ?_).mono
      (fun _ _ h => h) fun _ t ht => ⟨ht.footing_eq, ht.location_eq, ht.active_eq, ht.kept⟩
    have hnone : added signal s.context s.gathered.1 = [] := by
      cases signal <;> first | rfl | cases hstill
    rw [hnone, List.append_nil]
    exact hs.kept
  complains delimiter _ hs := ends_notFinished delimiter hs fun _ _ => trivial
  places hread _ := absurd hread (hreads _)

/-- What an action on the character keeps, it has kept when the character has been handled. -/
theorem ok_of_handle {o : Outlook StateName} {Q : List StateName → Prop}
    {t : Session StateName (Reader × List Event)}
    (governs : Governs grammar collector o (f.character? location) (StandsWith J f location)
      fun _ _ => True)
    (hsecure : Secure.dispatchBy grammar (f.character? location)
      (Secure.within grammar (f.character? location) o actionLimit) Q active)
    (hs : StandsWith J f location active s) (h : handle grammar collector s = .ok () t) :
    Q t.context.active ∧ StandsWith J f (location + 1) t.context.active t := by
  obtain ⟨_, u, hdispatch, hadvance⟩ := ok_of_bind h
  obtain ⟨active', hQ, hu⟩ := (governs.dispatch hsecure hs).ok hdispatch
  obtain ⟨-, rfl⟩ := eq_of_advance hadvance
  obtain ⟨hfooting, hlocation, hactive, hkept⟩ := hu
  subst hactive
  exact ⟨hQ, hfooting, congrArg (· + 1) hlocation, rfl, hkept⟩

end

/-- How a walk without substitution goes through. -/
theorem walk_cases_of_plain {limit : Nat} {s u : Session StateName (Reader × List Event)}
    (hplain : s.context.settings.substitutes = false)
    (h : walk grammar collector limit s = .ok () u) :
    (u = s ∧ s.context.atEnd = true ∧ handled grammar collector limit s = []) ∨
      ∃ rest t, limit = rest + 1 ∧ s.context.atEnd = false ∧
        handle grammar collector s = .ok () t ∧ walk grammar collector rest t = .ok () u ∧
          handled grammar collector limit s = s :: handled grammar collector rest t := by
  have hprepare := prepare_of_plain hplain
  cases hend : s.context.atEnd with
  | true =>
    rw [walk_of_atEnd limit hend] at h
    cases h
    exact .inl ⟨rfl, rfl, handled_of_atEnd limit hend⟩
  | false =>
    cases limit with
    | zero =>
      rw [walk, context_bind_apply, hend] at h
      cases h
    | succ rest =>
      rw [walk_succ_of_prepare hend hprepare hend] at h
      obtain ⟨_, t, hhandle, hwalk⟩ := ok_of_bind h
      exact .inr ⟨rest, t, rfl, rfl, hhandle, hwalk,
        handled_of_inside hend hprepare hend hhandle⟩

/-! ## Whole runs -/

/-- Where a run starts nothing but the format is reported. -/
theorem eq_format_of_mem_added {entrance : Entrance} {c : Context StateName} {r : Reader}
    {e : Event} (hactive : c.active = [entrance.state])
    (h : e ∈ added (.entered entrance.state) c r) : ∃ format, e = .format format := by
  have htells := tells_of_mem_added h
  cases entrance with
  | command => exact htells
  | arguments =>
    have hnone : added (.entered .argumentList) c r = [] := by
      have hdepth : ¬ 1 < c.stack.depth := by
        rw [depth_of_active hactive]
        exact Nat.lt_irrefl 1
      unfold added Reader.hear
      rw [show Reading.signal c (.entered .argumentList) { reader := r } =
        .ok () { reader := r } by
          show (if 1 < c.stack.depth then report _ else pure ()) _ = _
          rw [if_neg hdepth]
          rfl]
      rfl
    exact absurd h (hnone ▸ List.not_mem_nil)
  | headers => exact htells.elim

/-- What holds of the first events, at the start of the line. -/
theorem ok_of_enter {P : List Event → Prop} {settings : Settings} {strict : Bool}
    {entrance : Entrance} {text : Text} {s : Session StateName (Reader × List Event)}
    (hP : ∀ events : List Event, (∀ e ∈ events, ∃ format, e = .format format) → P events)
    (h : enter grammar collector entrance.state (.start settings strict text ({}, [])) = .ok () s) :
    StandsWith (fun _ => P) ⟨settings, strict, .ofText text⟩ 0 [entrance.state] s := by
  have hfirst : (grammar entrance.state).onEnter = .skip := by
    cases entrance <;> rfl
  have hstart : StandsWith (fun _ events => events = []) ⟨settings, strict, .ofText text⟩ 0 []
      (.start settings strict text ({}, [])) := ⟨rfl, rfl, rfl, rfl⟩
  have hends : Ends (fun _ _ => True)
      (fun _ => StandsWith (fun _ => P) ⟨settings, strict, .ofText text⟩ 0 [entrance.state])
      (enterBy grammar collector (act grammar collector) entrance.state)
      (.start settings strict text ({}, [])) := by
    rw [enterBy_eq, hfirst]
    refine (ends_opening _ hstart trivial).bind fun _ t ht => ?_
    refine (ends_tell_accepted (P := P) (ht.imp fun _ => trivial) fun _ => ?_).bind fun _ u hu =>
      .of_ok rfl hu
    rw [ht.kept, List.nil_append]
    exact hP _ fun e he => eq_format_of_mem_added ht.active_eq he
  exact hends.ok h

/-- The run behind a line that is accepted. -/
theorem exists_run_of_ofLine {settings : Settings} {strict : Bool} {entrance : Entrance}
    {text : Text} {result : Result} (hsolid : Text.isBlankText text = false)
    (h : (Event.ofLine settings strict entrance (some text)).2 = .ok result) :
    ∃ s u v, enter grammar collector entrance.state (.start settings strict text ({}, [])) =
        .ok () s ∧
      handledFrom grammar collector entrance.state (positionLimit settings text)
        (.start settings strict text ({}, [])) =
          handled grammar collector (positionLimit settings text) s ∧
      walk grammar collector (positionLimit settings text) s = .ok () u ∧
      finish grammar collector u = .ok () v ∧
      (Event.ofLine settings strict entrance (some text)).1 =
        v.gathered.2 ++ [.parsed result] := by
  rw [Event.ofLine_eq, Graph.read_of_not_isBlankText hsolid, Graph.readText] at h ⊢
  cases hrun : readFrom grammar collector entrance.state (positionLimit settings text)
      (.start settings strict text ({}, [])) with
  | error fault v =>
    rw [hrun] at h
    cases h
  | ok a v =>
    rw [hrun] at h
    cases h
    obtain ⟨_, s, henter, hrest⟩ := ok_of_bind hrun
    obtain ⟨_, u, hwalk, hfinish⟩ := ok_of_bind hrest
    refine ⟨s, u, v, henter, ?_, hwalk, hfinish, rfl⟩
    rw [handledFrom, henter]

/-! ## Characters before and behind the place -/

section

variable {b : StateName} {e : Event} {place : Nat} {limit : Nat}
  {s t u : Session StateName (Reader × List Event)}

/-- How often an event has been reported. -/
def reportsOf (e : Event) (s : Session StateName (Reader × List Event)) : Nat :=
  s.gathered.2.count e

/-- While the cursor stands elsewhere the mark is not reported. -/
theorem governs_elsewhere (hreads : ∀ active, ¬ ReadsItems b active) (f : Footing)
    {location : Nat} (he : e.MarksAt place) (hne : location ≠ place) (n : Nat) :
    Governs grammar collector { guard := fun _ => Nested b, reads := ReadsItems b }
      (f.character? location) (StandsWith (fun _ events => events.count e = n) f location)
      (fun _ _ => True) := by
  have adds {c : Context StateName} (hlocation : c.location = location)
      (signal : Signal StateName) (r : Reader) (events : List Event) :
      (events ++ added signal c r).count e = events.count e := by
    rw [List.count_append, List.count_eq_zero.2 (he.not_mem_added (hlocation ▸ hne)), Nat.add_zero]
  refine governs_accepted hreads f location ?_ ?_
  · intro c r x outer events _ hlocation _ _ hevents
    rw [adds hlocation]
    exact hevents
  · intro c r x outer events _ hlocation _ _ hevents
    rw [adds hlocation]
    exact hevents

variable (hreads : ∀ active, ¬ ReadsItems b active)
include hreads

omit hreads in
/-- A character is handled as the innermost of the nested states says. -/
theorem ok_of_handle_nested {J : List StateName → List Event → Prop}
    (governs : Governs grammar collector { guard := fun _ => Nested b, reads := ReadsItems b }
      (s.context.footing.character? s.context.location)
      (StandsWith J s.context.footing s.context.location) fun _ _ => True)
    (hnested : Nested b s.context.active) (hinside : s.context.atEnd = false)
    (hs : J s.context.active s.gathered.2) (h : handle grammar collector s = .ok () t) :
    Nested b t.context.active ∧ J t.context.active t.gathered.2 := by
  rw [Context.atEnd_eq_isNone, Option.isNone_eq_false_iff, Option.isSome_iff_exists] at hinside
  obtain ⟨d, hd⟩ := hinside
  have hcharacter : s.context.footing.character? s.context.location = some d := hd
  obtain ⟨hinner, ht⟩ := ok_of_handle governs
    (hcharacter ▸ secure_dispatch guides_nested hnested (fun _ _ _ => rfl) (fun _ _ _ => rfl)
      fun _ hinner => hinner)
    ⟨rfl, rfl, rfl, hs⟩ h
  exact ⟨hinner, ht.kept⟩

theorem nested_of_handle (hnested : Nested b s.context.active)
    (hinside : s.context.atEnd = false) (h : handle grammar collector s = .ok () t) :
    Nested b t.context.active :=
  (ok_of_handle_nested (J := fun _ _ => True)
    (governs_accepted hreads _ _ (fun _ _ _ _ _ => trivial) fun _ _ _ _ _ => trivial)
    hnested hinside trivial h).1

theorem reportsOf_handle (hnested : Nested b s.context.active)
    (hinside : s.context.atEnd = false) (he : e.MarksAt place) (hne : s.context.location ≠ place)
    (h : handle grammar collector s = .ok () t) :
    reportsOf e t = reportsOf e s :=
  (ok_of_handle_nested (governs_elsewhere hreads s.context.footing he hne (reportsOf e s))
    hnested hinside rfl h).2

theorem reportsOf_finish (hnested : Nested b s.context.active) (hend : s.context.atEnd = true)
    (he : e.MarksAt place) (hne : s.context.location ≠ place)
    (h : finish grammar collector s = .ok () t) : reportsOf e t = reportsOf e s := by
  rw [Context.atEnd_eq_isNone, Option.isNone_iff_eq_none] at hend
  have hcharacter : s.context.footing.character? s.context.location = none := hend
  have governs := governs_elsewhere hreads s.context.footing he hne (reportsOf e s)
  rw [hcharacter] at governs
  obtain ⟨_, -, ht⟩ := (governs.finish (fun hinner => hinner) hnested ⟨rfl, rfl, rfl, rfl⟩).ok h
  exact ht.kept

/-- A walk that starts behind the place. -/
theorem reportsOf_walk (hplain : s.context.settings.substitutes = false)
    (hnested : Nested b s.context.active) (he : e.MarksAt place) (hlt : place < s.context.location)
    (h : walk grammar collector limit s = .ok () u) :
    reportsOf e u = reportsOf e s ∧ Nested b u.context.active ∧
      place < u.context.location ∧ u.context.atEnd = true := by
  induction limit generalizing s with
  | zero =>
    rcases walk_cases_of_plain hplain h with ⟨rfl, hend, -⟩ | ⟨rest, t, hlimit, -⟩
    · exact ⟨rfl, hnested, hlt, hend⟩
    · cases hlimit
  | succ limit ih =>
    rcases walk_cases_of_plain hplain h with ⟨rfl, hend, -⟩ | ⟨rest, t, hlimit, hround⟩
    · exact ⟨rfl, hnested, hlt, hend⟩
    · obtain rfl : limit = rest := Nat.succ.inj hlimit
      obtain ⟨hinside, hhandle, hwalk, -⟩ := hround
      obtain ⟨hfooting, hlocation⟩ := after_handle (Reader.isLocal_listener _) hhandle
      have hinner := nested_of_handle hreads hnested hinside hhandle
      have hcount := reportsOf_handle hreads hnested hinside he (Nat.ne_of_gt hlt) hhandle
      have hsettings : t.context.settings = s.context.settings :=
        congrArg Footing.settings hfooting
      rw [← hcount]
      exact ih (hsettings ▸ hplain) hinner (hlocation ▸ Nat.lt_succ_of_lt hlt) hwalk

/-- A walk that comes to the place: what it reports of the mark it reports there. -/
theorem reportsOf_walk_through (hplain : s.context.settings.substitutes = false)
    (hnested : Nested b s.context.active) (ht : t ∈ handled grammar collector limit s)
    (hplace : t.context.location = place) (he : e.MarksAt place)
    (h : walk grammar collector limit s = .ok () u) :
    reportsOf e t = reportsOf e s ∧
      ∃ t', handle grammar collector t = .ok () t' ∧
        reportsOf e u = reportsOf e t' ∧ Nested b u.context.active ∧
          place < u.context.location ∧ u.context.atEnd = true := by
  induction limit generalizing s with
  | zero => cases ht
  | succ limit ih =>
    rcases walk_cases_of_plain hplain h with ⟨-, -, hnone⟩ | ⟨rest, s', hlimit, hround⟩
    · rw [hnone] at ht
      cases ht
    · obtain rfl : limit = rest := Nat.succ.inj hlimit
      obtain ⟨hinside, hhandle, hwalk, hhandled⟩ := hround
      obtain ⟨hfooting, hlocation⟩ := after_handle (Reader.isLocal_listener _) hhandle
      have hsettings : s'.context.settings = s.context.settings :=
        congrArg Footing.settings hfooting
      have hplain' : s'.context.settings.substitutes = false := hsettings ▸ hplain
      have hinner := nested_of_handle hreads hnested hinside hhandle
      rw [hhandled] at ht
      rcases List.mem_cons.1 ht with rfl | ht
      · refine ⟨rfl, s', hhandle, ?_⟩
        exact reportsOf_walk hreads hplain' hinner he (by omega) hwalk
      · -- the character that comes first stands before the place
        have hbefore : s.context.location ≠ place := by
          have hmem := List.mem_map_of_mem (f := fun t => t.context.location) ht
          obtain ⟨-, count, -, hlocations⟩ := locations_handled (Reader.isLocal_listener _) hwalk
          rw [hlocations, List.mem_range'_1] at hmem
          omega
        have hcount := reportsOf_handle hreads hnested hinside he hbefore hhandle
        rw [← hcount]
        exact ih hplain' hinner ht hwalk

end

end Machine

/-! ## Lines -/

section

variable {settings : Settings} {strict : Bool} {entrance : Entrance} {text : Text}
  {result : Result} {s : Session StateName (Reader × List Event)} {e : Event} {n : Nat}

/-- A line in which a character that is not blank is handled is not blank. -/
theorem isBlankText_of_handled (hplain : settings.substitutes = false)
    (hs : s ∈ handledFrom grammar collector entrance.state (positionLimit settings text)
      (.start settings strict text ({}, [])))
    {d : Char} (hd : s.context.character? = some d) (hsolid : Text.isBlank d = false) :
    Text.isBlankText text = false := by
  have hinput : s.context.input = text :=
    congrArg Line.substituted ((moves_of_handledFrom hs).line_of_plain hplain)
  rw [← Bool.not_eq_true]
  intro hblank
  exact Text.not_mem_of_isBlankText hsolid hblank (hinput ▸ List.mem_of_getElem? hd)

/-- What a line that is accepted without substitution reports of a mark, it reports where the
character of the mark is handled. -/
theorem count_of_handled (hplain : settings.substitutes = false)
    (hsolid : Text.isBlankText text = false)
    (haccepted : (Event.ofLine settings strict entrance (some text)).2 = .ok result)
    (hs : s ∈ handledFrom grammar collector entrance.state (positionLimit settings text)
      (.start settings strict text ({}, [])))
    (he : e.MarksAt s.context.location)
    (hthere : ∀ t, handle grammar collector s = .ok () t → reportsOf e t = reportsOf e s + n) :
    (Event.ofLine settings strict entrance (some text)).1.count e = n := by
  have hreads := entrance.not_readsItems
  obtain ⟨first, last, final, henter, hhandled, hwalk, hfinish, hevents⟩ :=
    exists_run_of_ofLine hsolid haccepted
  have hfirst := ok_of_enter (P := fun events => events.count e = 0)
    (fun events hevents => List.count_eq_zero.2 fun hmem => by
      obtain ⟨format, rfl⟩ := hevents _ hmem
      cases he.1) henter
  have hnested : Nested entrance.state first.context.active :=
    hfirst.active_eq ▸ .bottom entrance.isRoot_state
  have hsettings : first.context.settings = settings :=
    congrArg Footing.settings hfirst.footing_eq
  rw [hhandled] at hs
  obtain ⟨hbefore, t, hhandle, hafter, hlast, hbehind, hend⟩ :=
    reportsOf_walk_through hreads (hsettings ▸ hplain) hnested hs rfl he hwalk
  have hfinal := reportsOf_finish hreads hlast hend he (Nat.ne_of_gt hbehind) hfinish
  have hparsed : [Event.parsed result].count e = 0 := by
    rw [List.count_eq_zero, List.mem_singleton]
    rintro rfl
    cases he.1
  have hstart : reportsOf e first = 0 := hfirst.kept
  rw [hevents, List.count_append, hparsed, Nat.add_zero]
  show reportsOf e final = _
  rw [hfinal, hafter, hthere t hhandle, hbefore, hstart, Nat.zero_add]

end
end CommandLine
