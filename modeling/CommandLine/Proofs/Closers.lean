/-
# `CommandLine.Proofs.Closers` — lenient reading closes what a value leaves open

A text that ends in the middle of a structured value leaves some of its states open.  Strict
reading complains of the innermost one that needs a closing delimiter; lenient reading takes the
text for what it would be if all of them had been closed at its end.

    `[a, {b = "c`      is read as      `[a, {b = "c"}]`

Two runs are compared, one that unwinds the open states at the end of the text and one that reads
their delimiters.  What is found in the text is the same in both, because what follows is out of
sight (`travel_append`).  From there on each open state is left in turn, the innermost first: by
the end of the content in the first run (`Closing.finish`), by its own delimiter in the second one
(`Closing.travel`).  In both the builder is told the same, which is all that `Builder.closeAll`
depends on.
-/
import CommandLine.Proofs.Continuation
import CommandLine.Proofs.Patience

namespace CommandLine

open Machine Text

/-! ## The states of a value -/

namespace StateName

/-- What closes the state; the whole text and an escape need nothing. -/
def closer : StateName → Text
  | list => [']']
  | object | bytes => ['}']
  | valueQuotes => ['"']
  | _ => []

/-- The state is active in a structured value only. -/
def isValuePart : StateName → Bool
  | value | list | object | bytes | valueQuotes | valueEscape => true
  | _ => false

variable {x y : StateName}

/-- At the end of the text a part of a value complains that its delimiter is missing, if it has
one. -/
theorem onEnd_of_isValuePart (hx : x.isValuePart = true) :
    (grammar x).onEnd = if x.closer.isEmpty then .skip else .notFinished x.closer := by
  cases x <;> first | rfl | cases hx

/-- Its delimiter leaves the state. -/
theorem actionFor_closer {d : Char} (hx : x.closer = [d]) : (grammar x).actionFor [d] = .leave := by
  cases x <;> cases hx <;> rfl

/-- A part of a value does nothing when a part of it has been left. -/
theorem onReturn_of_isValuePart (hx : x.isValuePart = true) : (grammar x).onReturn = .skip := by
  cases x <;> first | rfl | cases hx

/-- No part of a value looks around. -/
theorem isSightless_gapAction_of_isValuePart (hx : x.isValuePart = true) :
    (grammar x).gapAction.isSightless = true := by
  cases x <;> first | rfl | cases hx

/-- What a part of a value holds needs a delimiter, an escape apart. -/
theorem closer_of_mem_holds (hy : y.isValuePart = true) (held : x ∈ y.holds)
    (hx : x ≠ valueEscape) : ∃ d, x.closer = [d] := by
  have table : ∀ y ∈ all, y.isValuePart = true → ∀ x ∈ y.holds, x ≠ valueEscape →
      x.closer.length = 1 := by decide
  exact List.length_eq_one_iff.1 (table y (mem_all y) hy x held hx)

end StateName

open StateName

section

variable {active outer : List StateName} {x y : StateName}

/-- Parts of values hold parts of values only. -/
theorem Nested.isValuePart (h : Nested value active) (hx : x ∈ active) :
    x.isValuePart = true := by
  have closed : ∀ y ∈ StateName.all, y.isValuePart = true →
      ∀ z ∈ y.holds, z.isValuePart = true := by
    decide
  induction h generalizing x with
  | bottom root =>
    obtain rfl := List.mem_singleton.1 hx
    rfl
  | @inside y z outer held rest ih =>
    rcases List.mem_cons.1 hx with rfl | hx
    · exact closed z (mem_all z) (ih List.mem_cons_self) _ held
    · exact ih hx

theorem Nested.eq_bottom {b : StateName} (h : Nested b [x]) : x = b := by
  cases h with
  | bottom root => rfl

theorem Nested.around {b : StateName} (h : Nested b (x :: y :: outer)) : Nested b (y :: outer) := by
  cases h with
  | inside held rest => exact rest

theorem Nested.held {b : StateName} (h : Nested b (x :: y :: outer)) : x ∈ y.holds := by
  cases h with
  | inside held rest => exact held

/-- Nothing stands in an escape. -/
theorem Nested.ne_valueEscape {b : StateName} (h : Nested b (x :: y :: outer)) :
    y ≠ valueEscape := by
  rintro rfl
  cases h.held

end

/-- In a value no look is taken, whatever the line reads like. -/
theorem Context.foresees_of_value {c : Context StateName}
    (h : Nested value c.active) (hinside : c.atEnd = false) (text : Text) :
    c.foresees text = true := by
  rw [Context.atEnd_eq_isNone, Option.isNone_eq_false_iff, Option.isSome_iff_exists] at hinside
  obtain ⟨d, hd⟩ := hinside
  refine Context.foresees_of_isSightless text fun f hframe => ?_
  have hmem : f.state ∈ c.active := List.mem_of_mem_head? (Context.active_of_frame? hframe)
  rw [Context.character, hd]
  exact isSightless_actionFor f.state fun _ =>
    isSightless_gapAction_of_isValuePart (h.isValuePart hmem)

/-! ## Closing everything -/

/-- What an answer comes to where complaints end the run. -/
def Reply.outcome {τ : Type} (reply : Reply τ) : Except Fault τ :=
  match reply.verdict with
  | .accept => .ok reply.gathered
  | .complain e => .error (.format e)
  | .refuse fault => .error fault

namespace Value.Builder

/-- The builder when all open states have been left, the innermost first. -/
def closeAll : List (Frame StateName) → Builder → Except Fault Builder
  | [], b => .ok b
  | f :: outer, b => (b.leaveState (some f.location) f.state).outcome >>= closeAll outer

/-- What has been built with a value that has ended is taken or refused. -/
theorem leaveState_ne_complain (b : Builder) (start : Option Int) (x : StateName)
    (e : FormatError) : (b.leaveState start x).verdict ≠ .complain e := by
  have mapLevel (b : Builder) (change : Level → Level) :
      (b.mapLevel change).verdict ≠ .complain e := by
    unfold Builder.mapLevel
    split <;> exact nofun
  have closeLevel : b.closeLevel.verdict ≠ .complain e := by
    unfold Builder.closeLevel
    split
    · exact nofun
    · dsimp only
      split
      · exact nofun
      · split
        · exact nofun
        · exact mapLevel _ _
  have closeBytes : (b.closeBytes start).verdict ≠ .complain e := by
    unfold Builder.closeBytes
    split
    · exact nofun
    · exact nofun
    · split
      · exact nofun
      · exact mapLevel _ _
  cases x with
  | value | list | object => exact closeLevel
  | valueQuotes => exact mapLevel _ _
  | bytes => exact closeBytes
  | _ => exact nofun

end Value.Builder

open Value

namespace Machine

variable {F : Footing} {location : Nat} {f : Frame StateName}
  {frames rest : List (Frame StateName)} {out : Except Fault Builder}
  {s : Session StateName Builder}

/-- These frames are open, and when all of them have been closed there will be this outcome. -/
structure Closing (out : Except Fault Builder) (F : Footing) (location : Nat)
    (frames : List (Frame StateName)) (s : Session StateName Builder) : Prop where
  footing_eq : s.context.footing = F
  location_eq : s.context.location = location
  frames_eq : s.context.stack.frames = frames
  outcome : s.gathered.closeAll frames = out

/-- The program ends with the outcome, or with these frames still open. -/
abbrev ClosesTo {α : Type} (out : Except Fault Builder) (F : Footing) (location : Nat)
    (frames : List (Frame StateName)) (p : Machine StateName Builder α)
    (s : Session StateName Builder) : Prop :=
  Ends (fun fault _ => out = .error fault) (fun _ t => Closing out F location frames t) p s

namespace Closing

/-- The innermost frame. -/
theorem frame? (h : Closing out F location (f :: rest) s) : s.context.frame? = some f :=
  congrArg List.head? h.frames_eq

theorem active_eq (h : Closing out F location frames s) :
    s.context.active = frames.map Frame.state := congrArg _ h.frames_eq

theorem depth_eq (h : Closing out F location frames s) : s.context.stack.depth = frames.length :=
  congrArg List.length h.frames_eq

theorem character?_eq (h : Closing out F location frames s) :
    s.context.character? = F.character? location := by
  rw [← h.footing_eq, ← h.location_eq]
  rfl

theorem atEnd_eq (h : Closing out F location frames s) :
    s.context.atEnd = (F.character? location).isNone := by
  rw [Context.atEnd_eq_isNone, h.character?_eq]

theorem substitutes_eq (h : Closing out F location frames s) :
    s.context.settings.substitutes = F.settings.substitutes :=
  congrArg (fun F => F.settings.substitutes) h.footing_eq

/-- The builder takes note that the innermost state is left. -/
theorem tell (h : Closing out F location (f :: rest) s) :
    Ends (fun fault _ => out = .error fault)
      (fun _ t => t.context = s.context ∧ t.gathered.closeAll rest = out)
      (tell Builder.listener (.leaving f.state)) s := by
  have hhear : Builder.listener.hear (.leaving f.state) s.context s.gathered =
      s.gathered.leaveState (some f.location) f.state := by
    show s.gathered.leaveState (s.context.frame?.map Frame.location) f.state = _
    rw [h.frame?]
    rfl
  have hout := h.outcome
  rw [Builder.closeAll, ← hhear, Reply.outcome] at hout
  refine .tell (fun hv => ?_) (fun {e} hv => ?_) fun {fault} hv => ?_
  · rw [hv] at hout
    exact ⟨rfl, hout⟩
  · rw [hhear] at hv
    exact absurd hv (Builder.leaveState_ne_complain _ _ _ e)
  · rw [hv] at hout
    exact hout.symm

/-- The innermost state is left, and the one around it stays as it is. -/
theorem leaveBy {run : Action StateName → Machine StateName Builder Unit}
    (hrun : ∀ s, run .skip s = .ok () s) (h : Closing out F location (f :: rest) s)
    (hnested : Nested value ((f :: rest).map Frame.state)) :
    ClosesTo out F location rest (leaveBy grammar Builder.listener run) s := by
  rw [leaveBy_eq]
  refine .read ?_
  rw [h.frame?]
  dsimp only
  rw [onLeave_grammar, Ends, bind_apply_of_ok (hrun s)]
  refine Ends.bind (R := fun _ t => Closing out F location rest t) ?_ fun _ _ ht => .pure ht
  unfold closeBy
  rw [frame_bind_eq]
  refine .read ?_
  rw [h.frame?]
  refine h.tell.bind fun _ t ht => ?_
  obtain ⟨hcontext, hout⟩ := ht
  refine Ends.bind (R := fun _ u => Closing out F location rest u) ?_ fun _ u hu => .read ?_
  · refine .closing (hcontext ▸ h.active_eq ▸ List.cons_ne_nil _ _) fun {frame stack} hp => ?_
    have hframes := h.frames_eq
    rw [hcontext] at hp
    rw [Stack.eq_of_pop hp] at hframes
    refine ⟨?_, ?_, ?_, hout⟩
    · rw [Context.footing_unlockValue]
      exact (congrArg Context.footing hcontext).trans h.footing_eq
    · rw [Context.location_unlockValue]
      exact (congrArg Context.location hcontext).trans h.location_eq
    · rw [Context.stack_unlockValue]
      exact (List.cons.inj hframes).2
  · cases hbelow : u.context.frame? with
    | none => exact .pure hu
    | some below =>
      have hmem : below.state ∈ (f :: rest).map Frame.state := by
        refine List.mem_map_of_mem (List.mem_cons_of_mem f ?_)
        exact hu.frames_eq ▸ List.mem_of_mem_head? hbelow
      dsimp only
      rw [onReturn_of_isValuePart (hnested.isValuePart hmem)]
      exact .of_ok (hrun u) hu

theorem leave (h : Closing out F location (f :: rest) s)
    (hnested : Nested value ((f :: rest).map Frame.state)) :
    ClosesTo out F location rest (leave grammar Builder.listener) s :=
  h.leaveBy (fun _ => rfl) hnested

/-- The end of the content is no news to the builder: what a state lacks is remembered, or it lacks
nothing. -/
theorem endState (h : Closing out F location (f :: rest) s)
    (hpart : f.state.isValuePart = true) (hcalm : F.strict = false ∨ f.state.closer = []) :
    ClosesTo out F location (f :: rest) (endState grammar Builder.listener) s := by
  rw [Machine.endState, frame_bind_eq]
  refine .read ?_
  rw [h.frame?]
  dsimp only
  rw [onEnd_of_isValuePart hpart]
  split
  · exact .of_ok rfl h
  · next hcloser =>
    have hlenient : s.context.strict = false := by
      rcases hcalm with hlenient | hnone
      · exact (congrArg Footing.strict h.footing_eq).trans hlenient
      · rw [hnone] at hcloser
        exact absurd rfl hcloser
    show Ends _ _ (notFinished f.state.closer) s
    unfold notFinished
    rw [frame_bind_eq]
    refine .read ?_
    rw [h.frame?]
    refine .complain (fun hstrict => ?_) fun _ =>
      ⟨h.footing_eq, h.location_eq, h.frames_eq, h.outcome⟩
    rw [hlenient] at hstrict
    cases hstrict

/-- Unwinding leaves all states but the whole text. -/
theorem unwind (limit : Nat) (h : Closing out F location frames s)
    (hnested : Nested value (frames.map Frame.state))
    (hcalm : F.strict = false ∨ frames.length = 1) (hlimit : frames.length ≤ limit + 1) :
    Ends (fun fault _ => out = .error fault)
      (fun _ t => ∃ f, Nested value [f.state] ∧ Closing out F location [f] t)
      (unwind grammar Builder.listener limit) s := by
  have outermost {t : Session StateName Builder} {frames : List (Frame StateName)}
      (ht : Closing out F location frames t) (hnested : Nested value (frames.map Frame.state))
      (hone : frames.length = 1) :
      ∃ f, Nested value [f.state] ∧ Closing out F location [f] t := by
    obtain ⟨f, rfl⟩ := List.length_eq_one_iff.1 hone
    exact ⟨f, hnested, ht⟩
  have hpos : 0 < frames.length := by
    refine List.length_pos_iff.2 ?_
    rintro rfl
    exact hnested.ne_nil rfl
  induction limit generalizing frames s with
  | zero =>
    have hone : frames.length = 1 := Nat.le_antisymm hlimit hpos
    refine .read ?_
    rw [h.depth_eq, if_neg (by omega)]
    exact .pure (outermost h hnested hone)
  | succ limit ih =>
    refine .read ?_
    rw [h.depth_eq]
    split
    · next hdeep =>
      obtain ⟨f, g, rest, rfl⟩ : ∃ f g rest, frames = f :: g :: rest := by
        match frames, hdeep with
        | f :: g :: rest, _ => exact ⟨f, g, rest, rfl⟩
      have hlenient : F.strict = false := hcalm.resolve_right (Nat.ne_of_gt hdeep)
      refine Ends.bind (h.endState (hnested.isValuePart List.mem_cons_self) (.inl hlenient))
        fun _ t ht => .read ?_
      rw [ht.depth_eq, if_pos hdeep]
      refine (Ends.discard (ht.leave hnested)).bind fun _ u hu => ?_
      exact ih hu hnested.around (.inl hlenient) (Nat.le_of_succ_le_succ hlimit) (Nat.succ_pos _)
    · next hshallow =>
      exact .pure (outermost h hnested (by omega))

/-- At the end of the content everything is closed, where nothing ends the run because it is still
open. -/
theorem finish (h : Closing out F location frames s)
    (hnested : Nested value (frames.map Frame.state))
    (hcalm : F.strict = false ∨ frames.length = 1) :
    Ends (fun fault _ => out = .error fault) (fun _ t => out = .ok t.gathered)
      (finish grammar Builder.listener) s := by
  refine .read ?_
  have hlimit : frames.length ≤ unwindLimit s.context.settings s.context.stack.depth + 1 := by
    rw [unwindLimit, h.depth_eq]
    omega
  refine (h.unwind _ hnested hcalm hlimit).bind fun _ t ht => .read ?_
  obtain ⟨f, hbottom, ht⟩ := ht
  have hvalue : f.state = value := hbottom.eq_bottom
  rw [ht.depth_eq]
  refine Ends.bind (ht.endState (hvalue ▸ rfl) (.inr (hvalue ▸ rfl))) fun _ u hu => .read ?_
  rw [hu.depth_eq]
  refine (Ends.discard (hu.leave hbottom)).mono (fun _ _ hF => hF) fun _ v hv => ?_
  exact hv.outcome.symm

/-- A closing delimiter is handled by leaving the state that it closes. -/
theorem handle {d : Char} (h : Closing out F location (f :: rest) s)
    (hnested : Nested value ((f :: rest).map Frame.state)) (hcloser : f.state.closer = [d])
    (hd : F.character? location = some d) :
    ClosesTo out F (location + 1) rest (handle grammar Builder.listener) s := by
  have hdispatch : ClosesTo out F location rest (dispatch grammar Builder.listener) s := by
    unfold dispatch
    rw [dispatchBy_eq]
    refine .read ?_
    rw [h.frame?]
    dsimp only
    rw [Context.character, h.character?_eq, hd]
    show Ends _ _ (act grammar Builder.listener ((grammar f.state).actionFor [d])) s
    rw [actionFor_closer hcloser]
    exact Ends.discard (h.leaveBy (fun _ => rfl) hnested)
  refine Ends.bind hdispatch fun _ t ht => ?_
  have hinside : t.context.atEnd = false := by
    rw [ht.atEnd_eq, hd]
    rfl
  have hadvance := advance_apply t
  rw [hinside] at hadvance
  exact .of_ok hadvance
    ⟨ht.footing_eq, congrArg (· + 1) ht.location_eq, ht.frames_eq, ht.outcome⟩

/-- The delimiters of all open states close everything. -/
theorem travel {limit : Nat} (h : Closing out F location frames s)
    (hnested : Nested value (frames.map Frame.state))
    (hescape : (frames.map Frame.state).head? ≠ some valueEscape)
    (hplain : F.settings.substitutes = false)
    (htext : F.line.substituted.drop location = (frames.map Frame.state).flatMap closer)
    (hlimit : ((frames.map Frame.state).flatMap closer).length ≤ limit) :
    Ends (fun fault _ => out = .error fault) (fun _ t => out = .ok t.gathered)
      (travel grammar Builder.listener limit) s := by
  have hhead : F.character? location = ((frames.map Frame.state).flatMap closer).head? := by
    rw [← htext, List.head?_drop]
    rfl
  induction frames generalizing location limit s with
  | nil => exact absurd rfl hnested.ne_nil
  | cons f rest ih =>
    cases rest with
    | nil =>
      have hvalue : f.state = value := hnested.eq_bottom
      have hend : s.context.atEnd = true := by
        rw [h.atEnd_eq, hhead, List.map_singleton, hvalue]
        rfl
      exact .of_eq (bind_apply_of_ok (walk_of_atEnd limit hend) _) (h.finish hnested (.inr rfl))
    | cons g rest =>
      have hf : f.state ≠ valueEscape := fun hf => hescape (congrArg some hf)
      obtain ⟨d, hcloser⟩ := closer_of_mem_holds
        (hnested.isValuePart (List.mem_cons_of_mem _ List.mem_cons_self)) hnested.held hf
      have hclosers : ((f :: g :: rest).map Frame.state).flatMap closer =
          d :: ((g :: rest).map Frame.state).flatMap closer := by
        rw [List.map_cons, List.flatMap_cons, hcloser]
        rfl
      rw [hclosers] at htext hlimit hhead
      obtain ⟨limit, rfl⟩ : ∃ less, limit = less + 1 :=
        ⟨limit - 1, by rw [List.length_cons] at hlimit; omega⟩
      have hend : s.context.atEnd = false := by
        rw [h.atEnd_eq, hhead]
        rfl
      have hsettings : s.context.settings.substitutes = false := h.substitutes_eq.trans hplain
      have hstep := h.handle hnested hcloser hhead
      cases hhandle : Machine.handle grammar Builder.listener s with
      | error fault t =>
        exact .of_error (travel_of_error hsettings hend hhandle) (hstep.error hhandle)
      | ok a t =>
        have ht := hstep.ok hhandle
        have hrest : F.line.substituted.drop (location + 1) =
            ((g :: rest).map Frame.state).flatMap closer := by
          rw [← List.drop_drop, htext]
          rfl
        refine .of_eq (travel_of_ok hsettings hend hhandle)
          (ih ht hnested.around ?_ hrest (Nat.le_of_succ_le_succ hlimit) ?_)
        · exact fun hg => hnested.ne_valueEscape (Option.some.inj hg)
        · rw [← hrest, List.head?_drop]
          rfl

end Closing

/-! ## Reading on -/

/-- The builder attends the run over a value. -/
theorem attends_value : Builder.listener.Attends value {} Builder.Levels fun _ => True :=
  Builder.steady_builder.attends rfl rfl

theorem travel_append_of_atEnd {strict : Bool} {limit : Nat} {t c : Text}
    {u : Session StateName Builder} (hs : Tracks Builder.Levels value strict s)
    (hfooting : s.context.footing = ⟨{}, strict, Line.ofText t⟩)
    (hlocation : s.context.location ≤ t.length) (hend : s.context.atEnd = true)
    (h : walk grammar Builder.listener limit s = .ok () u) (room : Nat) :
    Nested value u.context.active ∧ u.context.location = t.length ∧
      travel grammar Builder.listener (t.length - s.context.location + room)
          (s.via fun _ => ⟨{}, strict, Line.ofText (t ++ c)⟩) =
        travel grammar Builder.listener room
          (u.via fun _ => ⟨{}, strict, Line.ofText (t ++ c)⟩) := by
  rw [walk_of_atEnd limit hend] at h
  cases h
  have hinput : s.context.input = t := congrArg (fun f => f.line.substituted) hfooting
  rw [Context.atEnd, hinput, decide_eq_true_eq] at hend
  have hat : s.context.location = t.length := Nat.le_antisymm hlocation hend
  rw [hat, Nat.sub_self, Nat.zero_add]
  exact ⟨hs.nested, rfl, rfl⟩

/-- What has been read of a text is read in the same way when the text goes on. -/
theorem travel_append {strict : Bool} {limit : Nat} {t c : Text} {u : Session StateName Builder}
    (hs : Tracks Builder.Levels value strict s)
    (hfooting : s.context.footing = ⟨{}, strict, Line.ofText t⟩)
    (hlocation : s.context.location ≤ t.length)
    (h : walk grammar Builder.listener limit s = .ok () u) (room : Nat) :
    Nested value u.context.active ∧ u.context.location = t.length ∧
      travel grammar Builder.listener (t.length - s.context.location + room)
          (s.via fun _ => ⟨{}, strict, Line.ofText (t ++ c)⟩) =
        travel grammar Builder.listener room
          (u.via fun _ => ⟨{}, strict, Line.ofText (t ++ c)⟩) := by
  induction limit generalizing s with
  | zero =>
    cases hend : s.context.atEnd with
    | true => exact travel_append_of_atEnd hs hfooting hlocation hend h room
    | false =>
      rw [walk, context_bind_apply, hend] at h
      cases h
  | succ limit ih =>
    cases hend : s.context.atEnd with
    | true => exact travel_append_of_atEnd hs hfooting hlocation hend h room
    | false =>
      have hplain : s.context.settings.substitutes = false := by
        rw [show s.context.settings = {} from congrArg Footing.settings hfooting]
        rfl
      have hinput : s.context.input = t := congrArg (fun f => f.line.substituted) hfooting
      have hinside : s.context.location < t.length := by
        rw [Context.atEnd, hinput, decide_eq_false_iff_not] at hend
        exact Nat.lt_of_not_le hend
      rw [walk_succ_of_prepare hend (prepare_of_plain hplain) hend] at h
      obtain ⟨_, v, hhandle, hwalk⟩ := ok_of_bind h
      obtain ⟨hv, hvlocation⟩ := (ends_handle attends_value hs hend).ok hhandle
      obtain ⟨hvfooting, -⟩ := after_handle Builder.isLocal_listener hhandle
      -- the continued line shows the same character, and what follows it is out of sight
      have halike : s.context.SeesAlike ⟨{}, strict, Line.ofText (t ++ c)⟩ :=
        Context.seesAlike_append hinput rfl hinside
      have hvia := handle_via Builder.isLocal_listener rfl hs.strict_eq.symm halike
        (Context.foresees_of_value hs.nested hend (t ++ c)) hend
      rw [hhandle] at hvia
      have hlimit : t.length - s.context.location + room =
          t.length - v.context.location + room + 1 := by omega
      rw [hlimit, travel_of_ok rfl (halike.atEnd.trans hend) hvia]
      exact ih hv (hvfooting.trans hfooting) (by omega) hwalk

end Machine

/-! ## Values -/

namespace Value

/-- Reads a text up to its end, where what is open stays open. -/
def Builder.scan (text : Text) : Machine StateName Builder Unit := do
  enter grammar listener .value
  walk grammar listener (positionLimit {} text)

/-- The states that are open at the end of a text, the innermost first. -/
def openStates (text : Text) : List StateName :=
  (after (Builder.scan text) (.start {} true text {})).context.active

/-- The delimiters that a text lacks: those of the lists, objects, byte strings and quotes that are
open at its end, the innermost first. -/
def closers (text : Text) : Text := (openStates text).flatMap closer

section

variable {strict : Bool} {text : Text} {out : Except Fault Builder}

theorem read_eq (strict : Bool) (line : Option Text) : read strict line =
    (grammar.read {} strict Builder.listener .value line {}).2.map fun _ =>
      (grammar.read {} strict Builder.listener .value line {}).1.result := rfl

/-- Reading to the end of a text and then ending it is reading the text. -/
theorem Builder.readFrom_eq : readFrom grammar Builder.listener value (positionLimit {} text) = (do
    Builder.scan text
    finish grammar Builder.listener) := by
  rw [scan, bind_assoc]
  rfl

/-- What becomes of a run over a value. -/
def ofEnding (text : Text) :
    EStateM.Result Fault (Session StateName Builder) Unit → Except Fault (Option Value)
  | .ok _ s => .ok s.gathered.result
  | .error fault _ => .error (fault.forLine text)

theorem read_of_not_isBlankText (hsolid : isBlankText text = false) :
    read strict (some text) =
      ofEnding text (readFrom grammar Builder.listener value (positionLimit {} text)
        (.start {} strict text {})) := by
  rw [read_eq, Graph.read_of_not_isBlankText hsolid, Graph.readText]
  cases readFrom grammar Builder.listener value (positionLimit {} text)
    (.start {} strict text {}) <;> rfl

/-- The value of a text is what its run has built. -/
theorem read_of_ends (hsolid : isBlankText text = false)
    (h : Ends (fun fault _ => out = .error fault) (fun _ t => out = .ok t.gathered)
      (readFrom grammar Builder.listener value (positionLimit {} text))
      (.start {} strict text {})) :
    read strict (some text) = out.map Builder.result := by
  have hallows := allows_read strict (some text)
  rw [read_of_not_isBlankText hsolid] at hallows ⊢
  cases hrun : readFrom grammar Builder.listener value (positionLimit {} text)
    (.start {} strict text {}) with
  | ok a t =>
    rw [h.ok hrun]
    rfl
  | error fault t =>
    rw [hrun] at hallows
    rw [h.error hrun]
    cases fault with
    | defect cause =>
      -- that would be a failure to read the line, which no line is met with
      cases hallows with
      | format real _ => cases real
    | _ => rfl

/-- A text that strict reading finds unfinished has been read to its end. -/
theorem scan_of_notFinished {delimiter : Text} {start : Int} (hsolid : isBlankText text = false)
    (h : read true (some text) = .error (.format (.valueNotFinished delimiter start))) :
    ∃ u, Builder.scan text (.start {} true text {}) = .ok () u := by
  have hpatient : Patient (Builder.scan text) :=
    (Patient.enter isPatient_grammar Builder.isPatient_listener value).bind fun _ =>
      .walk isPatient_grammar Builder.isPatient_listener _
  have hscan := hpatient (.start {} true text {})
  cases hrun : Builder.scan text (.start {} true text {}) with
  | ok a u => exact ⟨u, rfl⟩
  | error fault u =>
    rw [read_of_not_isBlankText hsolid, Builder.readFrom_eq, bind_apply_of_error hrun] at h
    have hspared : fault.isNotFinished = false := hscan.error hrun
    have hfault : fault.forLine text = .format (.valueNotFinished delimiter start) :=
      Except.error.inj h
    cases fault with
    | format e =>
      cases hfault
      cases hspared
    | _ => cases hfault

/-- What has been built when the text ends, and everything that is open then. -/
theorem closing_of_scan {u : Session StateName Builder} (F : Footing) :
    Closing (u.gathered.closeAll u.context.stack.frames) F u.context.location
      u.context.stack.frames (u.via fun _ => F) := ⟨rfl, rfl, rfl, rfl⟩

end

section

variable {text : Text} {u : Session StateName Builder}
  (hscan : Builder.scan text (.start {} true text {}) = .ok () u)
include hscan

/-- What strict reading has found in a text that goes on, and the room that is left then. -/
theorem scan_append (c : Text) :
    ∃ room, c.length ≤ room ∧ Nested value u.context.active ∧
      u.context.location = text.length ∧
      readFrom grammar Builder.listener value (positionLimit {} (text ++ c))
          (.start {} true (text ++ c) {}) =
        travel grammar Builder.listener room
          (u.via fun _ => ⟨{}, true, Line.ofText (text ++ c)⟩) := by
  obtain ⟨_, t, henter, hwalk⟩ := ok_of_bind hscan
  obtain ⟨htfooting, htlocation⟩ := within_of_enter Builder.isLocal_listener henter
  have ht : Tracks Builder.Levels value true t :=
    ((ends_enter attends_value rfl rfl rfl rfl).ok henter).1
  have hstart : t.context.location = 0 := htlocation
  have hlimit := length_le_positionLimit {} (text ++ c)
  rw [List.length_append] at hlimit
  have henter' := enter_via (F := ⟨{}, true, Line.ofText (text ++ c)⟩) rfl
    (fun _ _ _ => rfl) rfl henter
  obtain ⟨hnested, hlocation, htravel⟩ := travel_append (c := c) ht htfooting
    (hstart ▸ Nat.zero_le _) hwalk (positionLimit {} (text ++ c) - text.length)
  refine ⟨positionLimit {} (text ++ c) - text.length, by omega, hnested, hlocation, ?_⟩
  rw [hstart, show text.length - 0 + (positionLimit {} (text ++ c) - text.length) =
    positionLimit {} (text ++ c) by omega] at htravel
  exact (bind_apply_of_ok henter' _).trans htravel

variable (hsolid : isBlankText text = false)
include hsolid

/-- Lenient reading closes what strict reading has found open. -/
theorem read_lenient_of_scan :
    read false (some text) =
      (u.gathered.closeAll u.context.stack.frames).map Builder.result := by
  refine read_of_ends hsolid ?_
  have htandem : Tandem grammar Builder.listener Footing.lenient Footing.IsStrict
      (Builder.scan text) :=
    (Tandem.enter concord_lenient Builder.isLocal_listener trivial).bind (fun _ => .walk _)
      fun _ => .lenient_walk Builder.isLocal_listener _
  have hlenient : Builder.scan text (.start {} false text {}) = .ok () (u.via Footing.lenient) := by
    rcases htandem.same (.start {} true text {}) rfl with hsame | ⟨e, v, he, -⟩
    · rw [hscan] at hsame
      exact hsame
    · rw [hscan] at he
      cases he
  obtain ⟨-, -, hnested, -⟩ := scan_append hscan []
  rw [Builder.readFrom_eq]
  exact .of_eq (bind_apply_of_ok hlenient _) ((closing_of_scan _).finish hnested (.inl rfl))

/-- Strict reading of the completed text closes what it has found open. -/
theorem read_strict_of_scan (hescape : u.context.active.head? ≠ some .valueEscape) :
    read true (some (text ++ u.context.active.flatMap closer)) =
      (u.gathered.closeAll u.context.stack.frames).map Builder.result := by
  have hsolid' : isBlankText (text ++ u.context.active.flatMap closer) = false := by
    rw [isBlankText, List.all_append, ← isBlankText, hsolid, Bool.false_and]
  refine read_of_ends hsolid' ?_
  obtain ⟨room, hroom, hnested, hlocation, hread⟩ :=
    scan_append hscan (u.context.active.flatMap closer)
  refine .of_eq hread ((closing_of_scan _).travel hnested hescape rfl ?_ hroom)
  rw [hlocation]
  exact List.drop_left

end

/-- Lenient reading completes a value.  Where strict reading finds that a text leaves a value
unfinished, and the text does not break off in an escape, lenient reading has the outcome, value or
error, that strict reading has for the text with all delimiters that it lacks. -/
theorem lenient_reads_closed_text (text delimiter : Text) (start : Int)
    (hopen : read true (some text) = .error (.format (.valueNotFinished delimiter start)))
    (hescape : (openStates text).head? ≠ some .valueEscape) :
    read false (some text) = read true (some (text ++ closers text)) := by
  have hsolid : isBlankText text = false := by
    cases hblank : isBlankText text with
    | true =>
      unfold read at hopen
      rw [Graph.read_of_isBlankText hblank] at hopen
      cases hopen
    | false => rfl
  obtain ⟨u, hscan⟩ := scan_of_notFinished hsolid hopen
  have hstates : openStates text = u.context.active := by
    rw [openStates, after_of_ok hscan]
  rw [hstates] at hescape
  rw [closers, hstates, read_lenient_of_scan hscan hsolid,
    read_strict_of_scan hscan hsolid hescape]

/-- `[a,{b="c` is read leniently as `[a,{b="c"}]`. -/
theorem lenient_reads_closed_text_of_open_quotes :
    read true (some ['[', 'a', ',', '{', 'b', '=', '"', 'c']) =
        .error (.format (.valueNotFinished ['"'] 6)) ∧
      (openStates ['[', 'a', ',', '{', 'b', '=', '"', 'c']).head? ≠ some .valueEscape ∧
      closers ['[', 'a', ',', '{', 'b', '=', '"', 'c'] = ['"', '}', ']'] ∧
      read false (some ['[', 'a', ',', '{', 'b', '=', '"', 'c']) =
        read true (some (['[', 'a', ',', '{', 'b', '=', '"', 'c'] ++ ['"', '}', ']'])) := by
  have houtcome : (grammar.read {} true Builder.listener .value
      (some ['[', 'a', ',', '{', 'b', '=', '"', 'c']) {}).2 =
        .error (.format (.valueNotFinished ['"'] 6)) := by decide +kernel
  have hopen : read true (some ['[', 'a', ',', '{', 'b', '=', '"', 'c']) =
      .error (.format (.valueNotFinished ['"'] 6)) := by
    rw [read_eq, houtcome, Except.map]
  have hescape : (openStates ['[', 'a', ',', '{', 'b', '=', '"', 'c']).head? ≠
      some .valueEscape := by decide +kernel
  have hclosers : closers ['[', 'a', ',', '{', 'b', '=', '"', 'c'] = ['"', '}', ']'] := by
    decide +kernel
  refine ⟨hopen, hescape, hclosers, ?_⟩
  rw [← hclosers]
  exact lenient_reads_closed_text _ _ _ hopen hescape

end Value
end CommandLine
