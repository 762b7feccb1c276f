/-
# `CommandLine.Proofs.Depth` — only groups take depth

How deep the states of a command line are nested is a matter of its brackets, parentheses and
braces alone.  A run whose states are nested as the table says has at most seven others active at
once, since each of them stands at a `level` of its own above the state that holds it, while a
group stands at the level of the value around it:

    1  command, headers                      5  a value, a group
    2  address, argumentList, commandName    6  quotes
    3  propertyList, headerList, argument    7  escape
    4  property, header, `=` of an argument

So a line of any length goes without `nestingTooDeep` if it never has more than `maxDepth - 7`
groups open at once: a state can only be entered from one below the highest level, which leaves
room for it.

The moments of a run are what a listener is shown, and with each of them what is left of its stack
when frames are popped (`Listener.watching`); every stack that comes up is shown when its innermost
state has been entered (`Watched.shown`).
-/
import CommandLine.Proofs.Safety
import CommandLine.Proofs.Watching

namespace CommandLine

/-! ## Levels -/

namespace StateName

/-- The state is a part of a value between brackets, parentheses or braces. -/
def isGroup : StateName → Bool
  | brackets | parentheses | braces => true
  | _ => false

/-- How many states can be active down from this one, groups apart; the states of values alone have
no level. -/
def level : StateName → Nat
  | command | headers => 1
  | address | argumentList | commandName => 2
  | node | nodeSeparator | operationSeparator | propertyList | headerList | argument
  | outputTarget => 3
  | nodeQuotes | operationName | property | header | nameValueSeparator => 4
  | nodeEscape | propertyValue | headerValue | argumentValue | brackets | parentheses | braces => 5
  | quotes | backQuotes => 6
  | escape => 7
  | _ => 0

theorem level_le (x : StateName) : x.level ≤ 7 := by
  cases x <;> decide

/-- A state stands above the one that holds it, unless it is a group. -/
theorem level_of_mem_holds {x y : StateName} (held : x ∈ y.holds) (hy : 0 < y.level) :
    y.level < 7 ∧ y.level + (if x.isGroup then 0 else 1) ≤ x.level := by
  have table : ∀ y ∈ all, 0 < y.level → ∀ x ∈ y.holds,
      y.level < 7 ∧ y.level + (if x.isGroup then 0 else 1) ≤ x.level := by decide
  exact table y (mem_all y) hy x held

end StateName

open StateName

section

variable {b x : StateName} {active outer : List StateName}

/-- Nested states are as many as the level of the innermost one, and the groups. -/
theorem Nested.length_le_level (h : Nested b (x :: outer)) (hb : 0 < b.level) :
    0 < x.level ∧ (x :: outer).length ≤ (x :: outer).countP isGroup + x.level := by
  induction outer generalizing x with
  | nil =>
    cases h with
    | bottom root => exact ⟨hb, Nat.le_trans hb (Nat.le_add_left _ _)⟩
  | cons y rest ih =>
    cases h with
    | inside held rest =>
      obtain ⟨hy, hlength⟩ := ih rest
      obtain ⟨-, hlevel⟩ := level_of_mem_holds held hy
      rw [List.length_cons, List.countP_cons]
      cases hx : x.isGroup with
      | true =>
        rw [hx] at hlevel
        simp only [if_true, Nat.add_zero] at hlevel ⊢
        omega
      | false =>
        rw [hx] at hlevel
        simp only [if_neg Bool.false_ne_true] at hlevel ⊢
        omega

/-- There are at most seven states besides the groups. -/
theorem Nested.length_le (h : Nested b active) (hb : 0 < b.level) :
    active.length ≤ active.countP isGroup + 7 := by
  cases active with
  | nil => exact Nat.zero_le _
  | cons x outer =>
    exact Nat.le_trans (h.length_le_level hb).2 (Nat.add_le_add_left x.level_le _)

/-- Where a state is entered there is room for it. -/
theorem Nested.length_lt (h : Nested b (x :: outer)) (hb : 0 < b.level) :
    outer.length < outer.countP isGroup + 7 := by
  cases h with
  | bottom root => exact Nat.succ_pos _
  | inside held rest =>
    obtain ⟨hy, hlength⟩ := rest.length_le_level hb
    obtain ⟨hlevel, -⟩ := level_of_mem_holds held hy
    omega

theorem Nested.of_suffix {inner : List StateName} (h : Nested b active) (hne : inner ≠ [])
    (hinner : inner <:+ active) : Nested b inner := by
  induction h with
  | bottom root =>
    rcases List.suffix_cons_iff.1 hinner with rfl | hnil
    · exact .bottom root
    · exact absurd (List.suffix_nil.1 hnil) hne
  | inside held rest ih =>
    rcases List.suffix_cons_iff.1 hinner with rfl | hrest
    · exact .inside held rest
    · exact ih hrest

end

/-! ## Watched runs -/

/-- The fault is that too many states would be active. -/
def Fault.isTooDeep : Fault → Bool
  | .format (.nestingTooDeep _ _) => true
  | _ => false

/-- The listener leaves it to the machine to find a line nested too deep. -/
def Listener.Spares {σ τ : Type} (L : Listener σ τ) : Prop :=
  ∀ (signal : Signal σ) (c : Context σ) (gathered : τ),
    match (L.hear signal c gathered).verdict with
    | .accept => True
    | .complain e => (Fault.format e).isTooDeep = false
    | .refuse fault => fault.isTooDeep = false

section

variable {τ : Type} {L : Listener StateName τ} {b : StateName} {limit : Int}
  {character : Option Char} {active known : List StateName}
  {s : Session StateName (List (Context StateName) × τ)}

/-- The active states are nested in all contexts that have been shown, and the known states, with
those below any of them, have been shown as active ones. -/
structure Watched (b : StateName) (limit : Int) (character : Option Char)
    (active known : List StateName) (s : Session StateName (List (Context StateName) × τ)) :
    Prop where
  active_eq : s.context.active = active
  character_eq : s.context.character? = character
  limit_eq : s.context.stack.maxDepth = limit
  nested : ∀ c ∈ s.gathered.1, Nested b c.active
  shown : ∀ inner ≠ [], inner <:+ known → ∃ c ∈ s.gathered.1, c.active = inner

/-- The run stops with nested states; if it finds the line nested too deep, there is no room for the
groups that are open. -/
def Overrun (L : Listener StateName τ) (b : StateName) (limit : Int) (fault : Fault)
    (s : Session StateName (List (Context StateName) × τ)) : Prop :=
  (∀ c ∈ s.gathered.1, Nested b c.active) ∧
    (L.Spares → fault.isTooDeep = true →
      limit < 7 ∨ ∃ c ∈ s.gathered.1, limit < c.active.countP isGroup + 7)

namespace Watched

open Machine

theorem remember (h : Watched b limit character active known s) (e : FormatError) :
    Watched b limit character active known { s with context := s.context.remember e } :=
  ⟨h.active_eq, h.character_eq, h.limit_eq, h.nested, h.shown⟩

/-- What is shown becomes known. -/
theorem heard (h : Watched b limit character active known s) (hnested : Nested b active)
    (hknown : ∀ inner, inner <:+ active → inner = active ∨ inner <:+ known)
    (signal : Signal StateName) :
    Watched b limit character active active (heard L.watching signal s) where
  active_eq := h.active_eq
  character_eq := h.character_eq
  limit_eq := h.limit_eq
  nested c hc := by
    rcases List.mem_append.1 hc with hc | hc
    · exact h.nested c hc
    · rw [List.mem_singleton.1 hc, h.active_eq]
      exact hnested
  shown inner hne hinner := by
    rcases hknown inner hinner with rfl | hinner
    · exact ⟨s.context, List.mem_append_right _ List.mem_cons_self, h.active_eq⟩
    · obtain ⟨c, hc, hactive⟩ := h.shown inner hne hinner
      exact ⟨c, List.mem_append_left _ hc, hactive⟩

/-- What the listener is told is shown; it may end the run. -/
theorem tell (h : Watched b limit character active known s) (hnested : Nested b active)
    (hknown : ∀ inner, inner <:+ active → inner = active ∨ inner <:+ known)
    (signal : Signal StateName) :
    Ends (Overrun L b limit) (fun _ => Watched b limit character active active)
      (tell L.watching signal) s := by
  have hheard := h.heard (L := L) hnested hknown signal
  have spared (hL : L.Spares) := hL signal s.context s.gathered.2
  have hverdict : (L.watching.hear signal s.context s.gathered).verdict =
      (L.hear signal s.context s.gathered.2).verdict := rfl
  rw [← hverdict] at spared
  refine .tell (fun _ => hheard) (fun {e} hv => ?_) fun {fault} hv => ?_
  · rw [hv] at spared
    refine .complain (fun _ => ⟨hheard.nested, fun hL hdeep => ?_⟩) fun _ => hheard.remember e
    cases (spared hL).symm.trans hdeep
  · rw [hv] at spared
    refine ⟨hheard.nested, fun hL hdeep => ?_⟩
    cases (spared hL).symm.trans hdeep

/-- A state is entered where there is room for it, and that is so unless the open groups take it. -/
theorem opening {x : StateName} (hb : 0 < b.level) (h : Watched b limit character active active s)
    (hnested : Nested b (x :: active)) :
    Ends (Overrun L b limit) (fun _ => Watched b limit character (x :: active) active)
      (opening grammar x) s := by
  refine .opening (fun hp => ⟨?_, ?_, ?_, h.nested, h.shown⟩) fun hfull => ⟨h.nested, fun _ _ => ?_⟩
  · rw [Context.active_markValue, Context.active_of_push hp, h.active_eq]
  · rw [Context.markValue_eq]
    exact h.character_eq
  · rw [Context.stack_markValue, Stack.eq_of_push hp]
    exact h.limit_eq
  · have hroom := hnested.length_lt hb
    rw [h.limit_eq, depth_of_active h.active_eq] at hfull
    cases hactive : active with
    | nil =>
      rw [hactive] at hfull
      exact .inl (Int.lt_of_le_of_lt hfull (by decide))
    | cons y outer =>
      have hne : active ≠ [] := hactive ▸ List.cons_ne_nil y outer
      obtain ⟨c, hc, hcactive⟩ := h.shown active hne (List.suffix_refl _)
      refine .inr ⟨c, hc, ?_⟩
      rw [hcactive]
      omega

theorem closing {x : StateName} {outer : List StateName}
    (h : Watched b limit character (x :: outer) (x :: outer) s) :
    Ends (Overrun L b limit) (fun _ => Watched b limit character outer outer) closing s := by
  have hactive := h.active_eq
  refine .closing (hactive ▸ List.cons_ne_nil x outer) fun {frame stack} hp => ?_
  have hlimit := h.limit_eq
  rw [Context.active_of_pop hp] at hactive
  rw [Stack.eq_of_pop hp] at hlimit
  refine ⟨?_, ?_, ?_, h.nested, fun inner hne hinner => h.shown inner hne ?_⟩
  · rw [Context.active_unlockValue]
    exact (List.cons.inj hactive).2
  · rw [Context.unlockValue_eq]
    exact h.character_eq
  · rw [Context.stack_unlockValue]
    exact hlimit
  · exact hinner.trans (List.suffix_cons x outer)

end Watched

namespace Machine

/-- What is known of a watched run is kept by all that can happen while the states are nested. -/
theorem governs_watching (hb : 0 < b.level) (hreads : ∀ active, ¬ ReadsItems b active) :
    Governs grammar L.watching { guard := fun _ => Nested b, reads := ReadsItems b } character
      (fun active s => Watched b limit character active active s) (Overrun L b limit) where
  active_eq hs := hs.active_eq
  character_eq hs := hs.character_eq
  literal _ _ := trivial
  enters hnested hs := (hs.opening hb hnested).bind fun _ _ ht =>
    ht.tell hnested (fun _ hinner => List.suffix_cons_iff.1 hinner) _
  leaves hnested hs := (hs.tell hnested (fun _ hinner => .inr hinner) _).bind fun _ _ ht =>
    ht.closing
  tells _ hnested hs := hs.tell hnested (fun _ hinner => .inr hinner) _
  complains {x outer s} delimiter _ hs := by
    obtain ⟨frame, hframe, -⟩ := Context.frame?_of_active hs.active_eq
    have hframe' := frame_apply s
    rw [hframe] at hframe'
    refine Ends.bind (R := fun _ t => t = s) (.of_ok hframe' rfl) fun frame t ht => ?_
    subst ht
    refine .complain (fun _ => ⟨hs.nested, fun _ hdeep => ?_⟩) fun _ => hs.remember _
    cases hdeep
  places hread _ := absurd hread (hreads _)

/-- A watched run as it stands between two characters. -/
def IsWatched (b : StateName) (limit : Int)
    (s : Session StateName (List (Context StateName) × τ)) : Prop :=
  Nested b s.context.active ∧
    Watched b limit s.context.character? s.context.active s.context.active s

theorem isWatched_of_watched (h : Watched b limit character active active s)
    (hnested : Nested b active) : IsWatched b limit s := by
  obtain rfl := h.active_eq
  obtain rfl := h.character_eq
  exact ⟨hnested, h⟩

variable (hb : 0 < b.level) (hreads : ∀ active, ¬ ReadsItems b active)

/-- Substitution leaves the active states alone. -/
theorem prepare_watching (h : IsWatched b limit s) :
    Ends (Overrun L b limit) (fun _ => IsWatched b limit) prepare s := by
  refine .read ?_
  split
  · have hresolve := resolve_apply s
    have hstack : s.context.resolve.1.stack = s.context.stack := Context.stack_resolveRounds _ _
    cases he : s.context.resolve.2 with
    | none =>
      rw [he] at hresolve
      have hactive : s.context.resolve.1.active = s.context.active := by
        rw [Context.active, hstack]
        rfl
      have hlimit : s.context.resolve.1.stack.maxDepth = limit := by
        rw [hstack]
        exact h.2.limit_eq
      exact .of_ok hresolve
        (isWatched_of_watched ⟨hactive, rfl, hlimit, h.2.nested, h.2.shown⟩ h.1)
    | some fault =>
      rw [he] at hresolve
      refine .of_error hresolve ⟨h.2.nested, fun _ hdeep => ?_⟩
      cases Context.refuses_of_resolve he with
      | @unresolved e _ hunresolved =>
        cases e with
        | nestingTooDeep at_most location => cases hunresolved
        | _ => cases hdeep
      | tooDeep => cases hdeep
  · exact .pure h

include hb hreads

theorem handle_watching (h : IsWatched b limit s) (hinside : s.context.atEnd = false) :
    Ends (Overrun L b limit) (fun _ => IsWatched b limit) (handle grammar L.watching) s := by
  rw [Context.atEnd_eq_isNone, Option.isNone_eq_false_iff, Option.isSome_iff_exists] at hinside
  obtain ⟨d, hd⟩ := hinside
  have hdispatch := (governs_watching (L := L) hb hreads).dispatch
    (secure_dispatch guides_nested h.1 (fun _ _ _ => rfl) (fun _ _ _ => rfl) fun _ hinner => hinner) (hd ▸ h.2)
  refine Ends.bind hdispatch fun _ t ht => ?_
  obtain ⟨active, hnested, ht⟩ := ht
  have hinside : t.context.atEnd = false := by
    rw [Context.atEnd_eq_isNone, ht.character_eq]
    rfl
  have hadvance := advance_apply t
  rw [hinside] at hadvance
  exact .of_ok hadvance
    (isWatched_of_watched ⟨ht.active_eq, rfl, ht.limit_eq, ht.nested, ht.shown⟩ hnested)

theorem carries_watching :
    Carries grammar L.watching (IsWatched b limit) (Overrun L b limit)
      (fun s => ∀ c ∈ s.gathered.1, Nested b c.active) where
  prepares h := prepare_watching h
  handles h hinside := handle_watching hb hreads h hinside
  endless h _ := ⟨h.2.nested, fun _ hdeep => by cases hdeep⟩
  finishes h hend := by
    rw [Context.atEnd_eq_isNone, Option.isNone_iff_eq_none] at hend
    have hfinish := (governs_watching (L := L) hb hreads).finish (fun h => h) h.1 (hend ▸ h.2)
    refine hfinish.mono (fun _ _ hF => hF) fun _ t ht => ?_
    obtain ⟨active, -, ht⟩ := ht
    exact ht.nested

/-- A watched run keeps the states nested, and does not find the line nested too deep where there is
room for the groups that are open. -/
theorem readFrom_watching (hroot : b.isRoot = true) (positions : Nat) (settings : Settings)
    (strict : Bool) (text : Text) (gathered : τ) :
    Ends (Overrun L b settings.maxDepth) (fun _ t => ∀ c ∈ t.gathered.1, Nested b c.active)
      (readFrom grammar L.watching b positions) (.start settings strict text ([], gathered)) := by
  refine (carries_watching hb hreads).readFrom positions ?_
  have hstart : Watched b settings.maxDepth text[0]? [] []
      (.start settings strict text ([], gathered) :
        Session StateName (List (Context StateName) × τ)) :=
    ⟨rfl, rfl, rfl, fun _ hc => absurd hc List.not_mem_nil,
      fun inner hne hinner => absurd (List.suffix_nil.1 hinner) hne⟩
  have henter := (governs_watching (L := L) hb hreads).enter
    (secure_enter_root (Q := (· = [b])) hroot (.bottom hroot) rfl) hstart
  refine henter.mono (fun _ _ hF => hF) fun _ t ht => ?_
  obtain ⟨_, rfl, ht⟩ := ht
  exact isWatched_of_watched ht (.bottom hroot)

end Machine
end

/-! ## Command lines -/

/-- Every entrance has a level, above which the states of its lines stand. -/
theorem Entrance.level_state_pos (entrance : Entrance) : 0 < entrance.state.level := by
  cases entrance <;> decide

section

variable {η : Type} {handler : Handler η}

/-- The handler does not refuse an event because of the nesting. -/
def Handler.Spares (handler : Handler η) : Prop :=
  ∀ (event : Event) (gathered rest : η) (fault : Fault),
    handler event gathered = (rest, .error fault) → fault.isTooDeep = false

theorem Reader.spares_listener (spares : handler.Spares) : (listener handler).Spares := by
  intro signal c gathered
  unfold listener
  dsimp only
  cases hd : deliver handler (gathered.1.hear signal c).1.reports gathered.2 with
  | mk rest refusal =>
    cases refusal with
    | some refusal => exact deliver_error spares hd
    | none =>
      cases he : (gathered.1.hear signal c).2 with
      | none => exact trivial
      | some e =>
        obtain ⟨fault, rfl⟩ := hear_error he
        exact rfl

/-- What a watched line shows is nested, and if it is found nested too deep, there was no room for
its groups. -/
theorem read_watching_entrance (settings : Settings) (strict : Bool) (handler : Handler η)
    (entrance : Entrance) (line : Option Text) (gathered : Reader × η) :
    let run := grammar.read settings strict (Reader.listener handler).watching entrance.state line
      ([], gathered)
    (∀ c ∈ run.1.1, Nested entrance.state c.active) ∧
      ∀ fault, run.2 = .error fault → handler.Spares → fault.isTooDeep = true →
        settings.maxDepth < 7 ∨
          ∃ c ∈ run.1.1, settings.maxDepth < c.active.countP StateName.isGroup + 7 := by
  have hrun := fun text => Machine.readFrom_watching (L := Reader.listener handler)
    entrance.level_state_pos entrance.not_readsItems entrance.isRoot_state
    (positionLimit settings text) settings strict text gathered
  unfold Graph.read
  dsimp only
  split
  · exact ⟨fun _ hc => absurd hc List.not_mem_nil, fun _ h => by cases h⟩
  · specialize hrun (line.getD [])
    unfold Machine.Ends at hrun
    unfold Graph.readText
    split at hrun
    · next hread =>
      rw [hread]
      exact ⟨hrun, fun _ h => by cases h⟩
    · next fault _ hread =>
      rw [hread]
      refine ⟨hrun.1, fun seen hseen spares hdeep => ?_⟩
      cases hseen
      refine hrun.2 (Reader.spares_listener spares) ?_
      cases fault with
      | defect cause => cases hdeep
      | _ => exact hdeep

/-- The moments of reading a line at which its listener is told something.  A state is entered with
such a moment; between two of them states are only left. -/
def momentsOf (settings : Settings) (strict : Bool) (handler : Handler η) (entrance : Entrance)
    (line : Option Text) (gathered : η) : List (Context StateName) :=
  (grammar.read settings strict (Reader.listener handler).watching entrance.state line
    ([], {}, gathered)).1.1

/-- When a handler that spares a line does not end its reading, the run does. -/
theorem Handler.Spares.read_error {settings : Settings} {strict : Bool} {entrance : Entrance}
    {line : Option Text} {gathered : η} {fault : Fault} (spares : handler.Spares)
    (h : (readLine settings strict handler entrance line gathered).2 = .error fault)
    (hdeep : fault.isTooDeep = true) :
    (grammar.read settings strict (Reader.listener handler) entrance.state line
      ({}, gathered)).2 = .error fault := by
  unfold readLine readWith at h
  cases hread : grammar.read settings strict (Reader.listener handler) entrance.state line
      ({}, gathered) with
  | mk heard outcome =>
    rw [hread] at h
    cases outcome with
    | error fault => exact h
    | ok result =>
      dsimp only at h
      split at h
      · next hhandler =>
        cases h
        cases (spares _ _ _ _ hhandler).symm.trans hdeep
      · cases h

/-- How many groups are open. -/
def openGroups (frames : List (Frame StateName)) : Nat := frames.countP (·.state.isGroup)

theorem countP_active (frames : List (Frame StateName)) :
    (frames.map Frame.state).countP StateName.isGroup = openGroups frames := by
  rw [List.countP_map]
  rfl

/-- Only groups take depth.  Whatever line is read, with any settings, strictly or leniently and
with any handler, at most seven states besides the groups are ever active at once.  So a line that
leaves room for seven states beside the groups that it opens at once is never found nested too deep,
unless the handler says so. -/
theorem only_groups_take_depth (settings : Settings) (strict : Bool) (handler : Handler η)
    (entrance : Entrance) (line : Option Text) (gathered : η) :
    (∀ c ∈ momentsOf settings strict handler entrance line gathered,
      ∀ frames, frames <:+ c.stack.frames → frames.length ≤ openGroups frames + 7) ∧
    (7 ≤ settings.maxDepth →
      (∀ c ∈ momentsOf settings strict handler entrance line gathered,
        openGroups c.stack.frames + 7 ≤ settings.maxDepth) →
      handler.Spares → ∀ limit location : Int,
        (readLine settings strict handler entrance line gathered).2 ≠
          .error (.format (.nestingTooDeep limit location))) := by
  obtain ⟨hnested, hdeep⟩ :=
    read_watching_entrance settings strict handler entrance line ({}, gathered)
  constructor
  · intro c hc frames hframes
    cases hempty : frames with
    | nil => exact Nat.zero_le _
    | cons first rest =>
      rw [← hempty]
      have hsuffix : frames.map Frame.state <:+ c.active := hframes.map _
      have hne : frames.map Frame.state ≠ [] := by simp [hempty]
      have hlength := ((hnested c hc).of_suffix hne hsuffix).length_le entrance.level_state_pos
      rwa [List.length_map, countP_active] at hlength
  · intro hseven hroom spares limit location houtcome
    have hread := spares.read_error houtcome rfl
    rw [← Graph.read_watching] at hread
    rcases hdeep _ hread spares rfl with hlow | ⟨c, hc, hfull⟩
    · omega
    · have := hroom c hc
      rw [Context.active, countP_active] at hfull
      omega

theorem only_groups_take_depth_of_group :
    ∀ limit location : Int,
      (readLine { maxDepth := 8 } true Handler.collecting .command
        (some "/a:b(c=[d]) {e} f=(g)".toList) []).2 ≠
          .error (.format (.nestingTooDeep limit location)) :=
  (only_groups_take_depth _ _ _ _ _ _).2 (by decide) (by decide +kernel) fun _ _ _ _ h => by cases h

end
end CommandLine
