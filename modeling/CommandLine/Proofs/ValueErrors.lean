/-
# `CommandLine.Proofs.ValueErrors` — where the errors of a structured value point

A structured value cannot be read for one of six reasons, and five of them are given with a place:

    a list, object, byte string or quoted text is left open   where its first character stands
    a text follows a value                                    where the text stands
    a numeral is no byte, or does not fit into one            where the byte string was opened
    the nesting is too deep                                   where the next state would be entered
    an item of an object has no name                          nowhere

Each of those places is a character of the text.  What carries this is that frames are pushed while
a character is handled (`Sited`): at the end of the text states are only left, and whatever is then
found wrong with them is reported where they were entered.

The sixth error comes from a level of the builder.  It is found while the object is left and its
frame is still at hand, but a level does not know where it was opened.
-/
import CommandLine.Proofs.Transparency

namespace CommandLine.Value

open StateName Machine

/-! ## Errors with a place -/

/-- The error points at one of the characters of a text of that length, unless it says that a name is
missing; such an error does not. -/
def PointsInto (length : Nat) (e : FormatError) : Prop :=
  0 ≤ e.offset ∧ e.offset < length ↔ ∀ shown, e ≠ .nameMissing shown

/-- If the run has ended because of the text, the error points into it. -/
def Placed (length : Nat) (fault : Fault) : Prop := ∀ e, fault = .format e → PointsInto length e

section

variable {length : Nat} {place : Int} {e : FormatError}

theorem PointsInto.of_lt (hkind : ∀ shown, e ≠ .nameMissing shown) (hoffset : e.offset = place)
    (h : 0 ≤ place ∧ place < length) : PointsInto length e :=
  ⟨fun _ => hkind, fun _ => hoffset ▸ h⟩

theorem pointsInto_nameMissing (shown : Text) : PointsInto length (.nameMissing shown) := by
  refine ⟨fun h => ?_, fun h => absurd rfl (h shown)⟩
  have hoffset : (0 : Int) ≤ -1 := h.1
  omega

theorem PointsInto.placed (h : PointsInto length e) : Placed length (.format e) := by
  rintro _ ⟨⟩
  exact h

theorem placed_defect (cause : Defect) : Placed length (.defect cause) := nofun

/-! ## What the builder finds wrong -/

theorem pointsInto_of_readByte {token : Text} (h : readByte place token = .error e)
    (hplace : 0 ≤ place ∧ place < length) : PointsInto length e := by
  unfold readByte at h
  split at h
  · cases h
    exact .of_lt nofun rfl hplace
  · split at h
    · cases h
    · cases h
      exact .of_lt nofun rfl hplace

/-- A byte string is at fault where it was opened. -/
theorem pointsInto_of_readBytes {text : Text} (h : readBytes place text = .error e)
    (hplace : 0 ≤ place ∧ place < length) : PointsInto length e := by
  obtain ⟨token, -, htoken⟩ := exists_of_mapM_error h
  exact pointsInto_of_readByte htoken hplace

theorem Level.pointsInto_of_value {l : Level} (h : l.value = .error e) : PointsInto length e := by
  unfold Level.value at h
  split at h
  · split at h
    · cases h
      exact pointsInto_nameMissing _
    · cases h
  · cases h
  · split at h <;> cases h

end

end CommandLine.Value

namespace CommandLine

/-- What the answer finds wrong points into a text of that length. -/
def Reply.Points {τ : Type} (length : Nat) (reply : Reply τ) : Prop :=
  match reply.verdict with
  | .accept => True
  | .complain e => Value.PointsInto length e
  | .refuse fault => Value.Placed length fault

end CommandLine

namespace CommandLine.Value

open StateName Machine

namespace Builder

variable {length : Nat} {b : Builder}

theorem points_mapLevel (change : Level → Level) : (b.mapLevel change).Points length := by
  unfold mapLevel
  cases b.levels with
  | nil => exact placed_defect _
  | cons level outer => trivial

theorem points_mapDraft (change : Draft → Draft) : (b.mapDraft change).Points length :=
  points_mapLevel _

theorem points_closeLevel : b.closeLevel.Points length := by
  unfold closeLevel
  cases b.levels with
  | nil => exact placed_defect _
  | cons level outer =>
    dsimp only
    cases hv : level.finishItem.value with
    | error e => exact (Level.pointsInto_of_value hv).placed
    | ok value =>
      dsimp only
      split
      · trivial
      · exact points_mapDraft _

theorem points_closeBytes {place : Int} (hplace : 0 ≤ place ∧ place < length) :
    (b.closeBytes (some place)).Points length := by
  unfold closeBytes
  cases b.draft with
  | error cause => exact placed_defect cause
  | ok d =>
    dsimp only
    cases hb : readBytes place d.buffer with
    | error e => exact (pointsInto_of_readBytes hb hplace).placed
    | ok octets => exact points_mapDraft _

theorem points_takeContent {location : Int} (character : Text)
    (hlocation : 0 ≤ location ∧ location < length) :
    (b.takeContent character location).Points length := by
  unfold takeContent
  cases b.draft with
  | error cause => exact placed_defect cause
  | ok d =>
    dsimp only
    split
    · exact .of_lt nofun rfl hlocation
    · exact points_mapDraft _

theorem points_enterState (x : StateName) : (b.enterState x).Points length := by
  cases x with
  | valueQuotes | bytes => exact points_mapDraft _
  | _ => trivial

theorem points_leaveState {place : Int} (x : StateName) (hplace : 0 ≤ place ∧ place < length) :
    (b.leaveState (some place) x).Points length := by
  cases x with
  | value | list | object => exact points_closeLevel
  | valueQuotes => exact points_mapDraft _
  | bytes => exact points_closeBytes hplace
  | _ => trivial

end Builder

/-! ## Frames on characters of the text -/

/-- The frame was pushed on a character of the text. -/
def IsSited (length : Nat) (frame : Frame StateName) : Prop :=
  0 ≤ frame.location ∧ frame.location < length

/-- The session stands at a place of the text, and its frames were pushed on characters. -/
structure Sited (J : Builder → Prop) (f : Footing) (location : Nat) (active : List StateName)
    (s : Session StateName Builder) : Prop extends
    Session.Stands (fun _ => J) f location active s where
  framed : ∀ frame ∈ s.context.stack.frames, IsSited f.line.substituted.length frame

/-- What can be told: at the end of the text states are only left. -/
def leftAtEnd (character : Option Char) : Signal StateName → List StateName → Prop
  | .leaving _, active => Nested value active
  | _, active => Nested value active ∧ character ≠ none

theorem guides_leftAtEnd {d : Char} : Guides value true true (some d) (leftAtEnd (some d)) where
  leaving _ _ _ h := h
  arguments _ _ h := ⟨h, nofun⟩
  entered _ _ _ h := ⟨h, nofun⟩
  content h := ⟨h, nofun⟩
  itemEnd h := ⟨h, nofun⟩
  nameEnd h := ⟨h, nofun⟩

variable {f : Footing} {location : Nat} {active outer : List StateName} {x : StateName}
  {s : Session StateName Builder} {J P : Builder → Prop}

/-- The fault of a run over the line is placed. -/
abbrev PlacedOn (f : Footing) (fault : Fault) (_ : Session StateName Builder) : Prop :=
  Placed f.line.substituted.length fault

/-- The cursor stands on a character. -/
theorem location_lt (h : f.character? location ≠ none) :
    0 ≤ (location : Int) ∧ (location : Int) < f.line.substituted.length := by
  have hlt : location < f.line.substituted.length := by
    by_contra hle
    exact h (List.getElem?_eq_none (Nat.le_of_not_lt hle))
  exact ⟨Int.natCast_nonneg _, Int.ofNat_lt.2 hlt⟩

theorem Sited.tell {signal : Signal StateName} (hs : Sited J f location active s)
    (hkeeps : (Builder.listener.hear signal s.context s.gathered).Keeps s.context.strict
      (fun _ => True) P)
    (hpoints : (Builder.listener.hear signal s.context s.gathered).Points
      f.line.substituted.length) :
    Ends (PlacedOn f) (fun _ => Sited P f location active) (tell Builder.listener signal) s := by
  unfold Reply.Keeps at hkeeps
  unfold Reply.Points at hpoints
  have hheard (hP : P (Builder.listener.hear signal s.context s.gathered).gathered) :
      Sited P f location active (heard Builder.listener signal s) :=
    ⟨⟨hs.footing_eq, hs.location_eq, hs.active_eq, hP⟩, hs.framed⟩
  refine .tell (fun hv => ?_) (fun {e} hv => ?_) fun hv => ?_
  · rw [hv] at hkeeps
    exact hheard hkeeps
  · rw [hv] at hkeeps hpoints
    have ht := hheard hkeeps.2
    exact .complain (fun _ => hpoints.placed) fun _ =>
      ⟨⟨ht.footing_eq, ht.location_eq, ht.active_eq, ht.kept⟩, ht.framed⟩
  · rw [hv] at hpoints
    exact hpoints

theorem Sited.opening (hs : Sited J f location active s) (x : StateName)
    (hinside : f.character? location ≠ none) :
    Ends (PlacedOn f) (fun _ => Sited J f location (x :: active)) (opening grammar x) s := by
  have hplace : 0 ≤ (s.context.location : Int) ∧
      (s.context.location : Int) < f.line.substituted.length :=
    hs.location_eq ▸ location_lt hinside
  refine .opening (fun {stack} hpush => ?_) fun _ =>
    PointsInto.placed (.of_lt (fun _ => nofun) rfl hplace)
  refine ⟨⟨?_, ?_, ?_, hs.kept⟩, ?_⟩
  · rw [Context.footing_markValue]
    exact hs.footing_eq
  · rw [Context.location_markValue]
    exact hs.location_eq
  · rw [Context.active_markValue, Context.active_of_push hpush, hs.active_eq]
  · rw [Context.stack_markValue, Stack.eq_of_push hpush]
    exact List.forall_mem_cons.2 ⟨hplace, hs.framed⟩

theorem Sited.closing (hs : Sited J f location (x :: outer) s) :
    Ends (PlacedOn f) (fun _ => Sited J f location outer) closing s := by
  have hactive := hs.active_eq
  refine .closing (hactive ▸ List.cons_ne_nil x outer) fun {frame stack} hpop => ?_
  have hframed := hs.framed
  rw [Context.active_of_pop hpop] at hactive
  rw [Stack.eq_of_pop hpop] at hframed
  refine ⟨⟨?_, ?_, ?_, hs.kept⟩, ?_⟩
  · rw [Context.footing_unlockValue]
    exact hs.footing_eq
  · rw [Context.location_unlockValue]
    exact hs.location_eq
  · rw [Context.active_unlockValue]
    exact (List.cons.inj hactive).2
  · rw [Context.stack_unlockValue]
    exact (List.forall_mem_cons.1 hframed).2

/-- The innermost frame was pushed on a character. -/
theorem Sited.exists_frame (hs : Sited J f location (x :: outer) s) :
    ∃ frame, s.context.frame? = some frame ∧ IsSited f.line.substituted.length frame := by
  obtain ⟨frame, hframe, -⟩ := Context.frame?_of_active hs.active_eq
  exact ⟨frame, hframe, hs.framed frame (List.mem_of_mem_head? hframe)⟩

/-- The session stands there, and the builder has a level for each list or object. -/
abbrev Builds (f : Footing) (location : Nat) (active : List StateName) :
    Session StateName Builder → Prop :=
  Sited (Builder.Levels active) f location active

/-- Every piece of an action keeps the frames on characters, or fails with an error that is
placed. -/
theorem governs_builds (f : Footing) (location : Nat) :
    Governs grammar Builder.listener
      { guard := leftAtEnd (f.character? location), reads := ReadsItems value }
      (f.character? location) (Builds f location) (PlacedOn f) where
  active_eq hs := hs.active_eq
  character_eq hs := character?_of_stands hs.toStands
  literal _ _ := trivial
  enters {x outer s} hguard hs := by
    refine (hs.opening x hguard.2).bind fun _ t ht => ?_
    exact ht.tell (Builder.keeps_enterState ht.kept hguard.1) (Builder.points_enterState x)
  leaves {x outer s} hguard hs := by
    obtain ⟨frame, hframe, hsited⟩ := hs.exists_frame
    have hhear : Builder.listener.hear (.leaving x) s.context s.gathered =
        s.gathered.leaveState (some frame.location) x := by
      show s.gathered.leaveState (s.context.frame?.map Frame.location) x = _
      rw [hframe]
      rfl
    refine Ends.bind (R := fun _ => Sited (Builder.Levels outer) f location (x :: outer)) ?_
      fun _ _ ht => ht.closing
    refine hs.tell ?_ ?_
    · rw [hhear]
      exact Builder.keeps_leaveState _ hs.kept hguard
    · rw [hhear]
      exact Builder.points_leaveState x hsited
  tells {signal active s} hstill hguard hs := by
    cases signal with
    | content =>
      have hne := hs.kept.ne_nil hguard.1
      refine hs.tell (Builder.keeps_takeContent _ _ hs.kept hne) (Builder.points_takeContent _ ?_)
      exact hs.location_eq ▸ location_lt hguard.2
    | itemEnd =>
      have hne := hs.kept.ne_nil hguard.1
      exact hs.tell (Builder.keeps_mapLevel _ hs.kept hne) (Builder.points_mapLevel _)
    | nameEnd =>
      have hne := hs.kept.ne_nil hguard.1
      exact hs.tell (Builder.keeps_mapDraft _ hs.kept hne) (Builder.points_mapDraft _)
    | entered x | leaving x => cases hstill
  complains {x outer s} delimiter _ hs := by
    obtain ⟨frame, hframe, hsited⟩ := hs.exists_frame
    have hfound := frame_apply s
    rw [hframe] at hfound
    refine Ends.of_eq (bind_apply_of_ok hfound _) ?_
    exact .complain (fun _ => PointsInto.placed (.of_lt (fun _ => nofun) rfl hsited)) fun _ =>
      ⟨⟨hs.footing_eq, hs.location_eq, hs.active_eq, hs.kept⟩, hs.framed⟩
  places hreads hs := (@Builder.steady_listener none).place hreads hs.kept

/-! ## Runs -/

/-- Between two characters of the line. -/
structure Proceeds (f : Footing) (s : Session StateName Builder) : Prop where
  nested : Nested value s.context.active
  builds : Builds f s.context.location s.context.active s

theorem Proceeds.character?_eq (h : Proceeds f s) :
    f.character? s.context.location = s.context.character? :=
  (character?_of_stands h.builds.toStands).symm

/-- A character is handled, and the cursor moves on. -/
theorem Proceeds.handle (h : Proceeds f s) (hinside : s.context.atEnd = false) :
    Ends (PlacedOn f) (fun _ => Proceeds f) (handle grammar Builder.listener) s := by
  rw [Context.atEnd_eq_isNone, Option.isNone_eq_false_iff, Option.isSome_iff_exists] at hinside
  obtain ⟨d, hd⟩ := hinside
  have hsecure : Secure.dispatchBy grammar (f.character? s.context.location)
      (Secure grammar (leftAtEnd (f.character? s.context.location)) (ReadsItems value)
        (f.character? s.context.location) actionLimit) (Nested value) s.context.active := by
    rw [h.character?_eq, hd]
    exact secure_dispatch guides_leftAtEnd h.nested (fun _ _ _ => rfl) (fun _ _ _ => rfl)
      fun _ hinner => hinner
  refine Ends.bind ((governs_builds f s.context.location).dispatch hsecure h.builds)
    fun _ t ht => ?_
  obtain ⟨active, hnested, ht⟩ := ht
  have hadvance := advance_apply t
  split at hadvance
  · exact .of_error hadvance nofun
  · refine .of_ok hadvance ⟨ht.active_eq ▸ hnested, ?_⟩
    exact ⟨⟨ht.footing_eq, rfl, rfl, ht.active_eq ▸ ht.kept⟩, ht.framed⟩

theorem carries_builds (hplain : f.settings.substitutes = false) :
    Carries grammar Builder.listener (Proceeds f) (PlacedOn f) (fun _ => True) where
  prepares {s} h := by
    have hsettings : s.context.settings = f.settings :=
      congrArg Footing.settings h.builds.footing_eq
    exact .of_ok (prepare_of_plain (hsettings ▸ hplain)) h
  handles h hinside := h.handle hinside
  endless _ _ := nofun
  finishes {s} h hend := by
    rw [Context.atEnd_eq_isNone, Option.isNone_iff_eq_none] at hend
    have governs := governs_builds f s.context.location
    rw [h.character?_eq, hend] at governs
    exact (governs.finish (fun hinner => hinner) h.nested h.builds).mono (fun _ _ hF => hF)
      fun _ _ _ => trivial

/-- A run over a text that has a character ends with errors that are placed. -/
theorem ends_readFrom_builds {settings : Settings} (hplain : settings.substitutes = false)
    (strict : Bool) {text : Text} (hne : text ≠ []) (limit : Nat) :
    Ends (fun fault _ => Placed text.length fault) (fun _ _ => True)
      (readFrom grammar Builder.listener value limit) (.start settings strict text {}) := by
  obtain ⟨d, rest, rfl⟩ := List.exists_cons_of_ne_nil hne
  refine (carries_builds (f := ⟨settings, strict, .ofText (d :: rest)⟩) hplain).readFrom limit ?_
  have henter := (governs_builds ⟨settings, strict, .ofText (d :: rest)⟩ 0).enter
    (secure_enter_root (Q := (· = [value])) rfl ⟨.bottom rfl, nofun⟩ rfl)
    (s := .start settings strict (d :: rest) {}) ⟨⟨rfl, rfl, rfl, rfl⟩, nofun⟩
  refine henter.mono (fun _ _ hF => hF) fun _ t ht => ?_
  obtain ⟨_, rfl, ht⟩ := ht
  exact ⟨ht.active_eq ▸ .bottom rfl, ⟨ht.footing_eq, rfl, rfl, ht.active_eq ▸ ht.kept⟩, ht.framed⟩

/-! ## Reading a value -/

section

variable {strict : Bool} {text : Text} {e : FormatError}

/-- Only a text that holds more than blanks cannot be read. -/
theorem exists_run_of_read (h : read strict (some text) = .error (.format e)) :
    text ≠ [] ∧ ∃ fault t, readFrom grammar Builder.listener value (positionLimit {} text)
        (.start {} strict text {}) = .error fault t ∧ fault.forLine text = .format e := by
  unfold read at h
  cases hblank : Text.isBlankText text with
  | true =>
    rw [Graph.read_of_isBlankText hblank] at h
    cases h
  | false =>
    refine ⟨?_, ?_⟩
    · rintro rfl
      cases hblank
    rw [Graph.read_of_not_isBlankText hblank, Graph.readText] at h
    cases hrun : readFrom grammar Builder.listener value (positionLimit {} text)
        (.start {} strict text {}) with
    | ok a t =>
      rw [hrun] at h
      cases h
    | error fault t =>
      rw [hrun] at h
      exact ⟨fault, t, rfl, Except.error.inj h⟩

/-- Where the errors of a structured value point.  If a text cannot be read, strictly or leniently,
this is because of the text, and the error points at one of its characters exactly if it is not that
an item of an object has no name. -/
theorem error_placed_iff {fault : Fault} (h : read strict (some text) = .error fault) :
    ∃ e, fault = .format e ∧
      (0 ≤ e.offset ∧ e.offset < text.length ↔ ∀ shown, e ≠ .nameMissing shown) := by
  have hline : fault.AboutLine strict := by
    have hallows := allows_read strict (some text)
    rw [h] at hallows
    exact hallows
  cases hline with
  | @format e real grave =>
    refine ⟨e, rfl, ?_⟩
    obtain ⟨hne, found, t, hrun, hfound⟩ := exists_run_of_read h
    have hplaced := (ends_readFrom_builds rfl strict hne (positionLimit {} text)).error hrun
    cases found with
    | format _ =>
      cases hfound
      exact hplaced _ rfl
    | defect cause =>
      cases hfound
      cases real
    | breach cause => cases hfound
    | endless => cases hfound

/-- Why a text cannot be read. -/
def fault? (strict : Bool) (text : Text) : Option Fault :=
  match read strict (some text) with
  | .ok _ => none
  | .error fault => some fault

theorem read_of_fault? {fault : Fault} (h : fault? strict text = some fault) :
    read strict (some text) = .error fault := by
  unfold fault? at h
  split at h
  · cases h
  · next hread => rw [hread, Option.some.inj h]

/-- A list that is left open, after another one. -/
def openList : Text := ['[', 'a', ']', ',', '[', 'b']

theorem error_placed_iff_of_open_list :
    read true (some openList) = .error (.format (.valueNotFinished [']'] 4)) ∧
      ∃ e, Fault.format (.valueNotFinished [']'] 4) = .format e ∧
        (0 ≤ e.offset ∧ e.offset < openList.length ↔ ∀ shown, e ≠ .nameMissing shown) := by
  have hread : read true (some openList) = .error (.format (.valueNotFinished [']'] 4)) :=
    read_of_fault? (by decide +kernel)
  exact ⟨hread, error_placed_iff hread⟩

/-- An object with an item that has no name. -/
def unnamedItem : Text := ['{', 'a', '}']

/-- The error about the item does not say where the object stands, strictly or leniently. -/
theorem not_error_placed_of_unnamed_item : ∃ e,
    read true (some unnamedItem) = .error (.format e) ∧
      read false (some unnamedItem) = .error (.format e) ∧
        ¬ (0 ≤ e.offset ∧ e.offset < unnamedItem.length) := by
  refine ⟨.nameMissing ['a'], ?_, ?_, ?_⟩
  · exact read_of_fault? (by decide +kernel)
  · exact read_of_fault? (by decide +kernel)
  · decide

end

end CommandLine.Value
