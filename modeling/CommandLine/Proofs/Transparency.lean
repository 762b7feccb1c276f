/-
# `CommandLine.Proofs.Transparency` — reading a line and reading its substituted text

A run that substitutes rewrites the line in front of the cursor while it reads.  Suppose that it
returns, and let `S` be the line as it reads at the end.  Reading `S` without any substitution does
the same:

    what stands before and under the cursor is final    (`Moves.later`)
    so each character is handled alike                  (`dispatch_via`)
    and the two walks end together                      (`walk_via`, `finish_calm`)

The one thing that reads what is not final yet is a look around a separator.  On a gap such a look
sees the unsubstituted text after the cursor and may take it for something else than what will
stand there.  So the runs agree where every look that is taken gives the answer that it would give
on `S` (`Context.foresees`); a list of arguments takes no looks at all.
-/
import CommandLine.Proofs.Foresight
import CommandLine.Proofs.Safety
import CommandLine.Proofs.Strictness
import Mathlib.Control.Monad.Basic

namespace CommandLine

/-- The settings without any substitution. -/
def Settings.plain (settings : Settings) : Settings := { maxDepth := settings.maxDepth }

/-- The settings in which one variable has a value. -/
def Settings.ofVariable (name value : Text) : Settings :=
  { resolver := { variableValues := some [(name, value)] } }

namespace Machine

/-! ## The sessions in which a character is handled -/

section

variable {σ τ : Type} (G : Graph σ) (L : Listener σ τ)

/-- The sessions in which a walk of at most `limit` characters handles a character. -/
def handled : Nat → Session σ τ → List (Session σ τ)
  | 0, _ => []
  | limit + 1, s =>
    if s.context.atEnd then []
    else
      match prepare s with
      | .error _ _ => []
      | .ok _ t =>
        if t.context.atEnd then []
        else
          t :: match handle G L t with
            | .error _ _ => []
            | .ok _ u => handled limit u

/-- The sessions in which a run handles a character. -/
def handledFrom (initial : σ) (limit : Nat) (s : Session σ τ) : List (Session σ τ) :=
  match enter G L initial s with
  | .error _ _ => []
  | .ok _ t => handled G L limit t

end

section

variable {σ τ : Type} {G : Graph σ} {L : Listener σ τ} {s t u : Session σ τ} {F : Footing}

/-- Preparing changes the line only. -/
theorem eq_of_prepare (h : prepare s = .ok () t) :
    t = { s with context := { s.context with line := t.context.line } } := by
  unfold prepare at h
  rw [context_bind_apply] at h
  cases he : s.context.expressionsEnabled with
  | false =>
    rw [he] at h
    cases h
    rfl
  | true =>
    rw [he, if_pos rfl, resolve_apply] at h
    cases hr : s.context.resolve.2 with
    | some e =>
      rw [hr] at h
      cases h
    | none =>
      rw [hr] at h
      cases h
      exact congrArg (Session.mk · s.gathered) (Context.resolveRounds_eq _ _)

theorem via_of_line (h : t = { s with context := { s.context with line := t.context.line } }) :
    t.via (fun _ => F) = s.via fun _ => F := by
  rw [h]
  rfl

/-- Without substitution there is nothing to prepare. -/
theorem prepare_of_plain (h : s.context.settings.substitutes = false) :
    prepare s = .ok () s := by
  unfold prepare
  rw [context_bind_apply]
  cases s.context.expressionsEnabled with
  | false => rfl
  | true =>
    rw [if_pos rfl, resolve_apply, Context.resolve_of_plain h]

theorem eq_of_advance (h : advance s = .ok () t) :
    s.context.atEnd = false ∧
      t = { s with context := { s.context with location := s.context.location + 1 } } := by
  rw [advance_apply] at h
  cases hend : s.context.atEnd with
  | true =>
    rw [if_pos hend] at h
    cases h
  | false =>
    rw [hend] at h
    cases h
    exact ⟨rfl, rfl⟩

/-! ## A walk step by step -/

theorem walk_of_atEnd (limit : Nat) (h : s.context.atEnd = true) :
    walk G L limit s = .ok () s := by
  cases limit with
  | zero =>
    rw [walk, context_bind_apply, if_pos h]
    rfl
  | succ limit =>
    rw [walk, context_bind_apply, if_pos h]
    rfl

theorem walk_succ_of_inside {limit : Nat} (h : s.context.atEnd = false) :
    walk G L (limit + 1) s = (do
      step G L
      walk G L limit) s := by
  rw [walk, context_bind_apply, h]
  rfl

theorem step_of_inside (h : prepare s = .ok () t) (hinside : t.context.atEnd = false) :
    step G L s = handle G L t := by
  rw [step_eq, bind_apply_of_ok h, context_bind_apply, hinside]
  rfl

/-- One round of a walk. -/
theorem walk_succ_of_prepare {limit : Nat} (hend : s.context.atEnd = false)
    (hprepare : prepare s = .ok () t) (hinside : t.context.atEnd = false) :
    walk G L (limit + 1) s = (do
      handle G L
      walk G L limit) t := by
  rw [walk_succ_of_inside hend]
  simp only [bind, EStateM.bind, step_of_inside hprepare hinside]

theorem handled_of_inside {rest : Nat} {t' : Session σ τ} (hend : s.context.atEnd = false)
    (hprepare : prepare s = .ok () t) (hinside : t.context.atEnd = false)
    (hhandle : handle G L t = .ok () t') :
    handled G L (rest + 1) s = t :: handled G L rest t' := by
  rw [handled, hend, hprepare]
  dsimp only
  rw [hinside, hhandle]
  rfl

theorem handled_of_atEnd (limit : Nat) (hend : s.context.atEnd = true) :
    handled G L limit s = [] := by
  cases limit with
  | zero => rfl
  | succ limit => rw [handled, if_pos hend]

/-- How a walk goes through: the line has ended, perhaps with what was replaced under the cursor,
or a character is handled and the walk goes on. -/
theorem walk_cases {limit : Nat} (h : walk G L limit s = .ok () u) :
    (u.context.atEnd = true ∧ u = { s with context := { s.context with line := u.context.line } } ∧
        handled G L limit s = []) ∨
    ∃ rest t t', limit = rest + 1 ∧ prepare s = .ok () t ∧ t.context.atEnd = false ∧
      handle G L t = .ok () t' ∧ walk G L rest t' = .ok () u ∧
        handled G L limit s = t :: handled G L rest t' := by
  cases hend : s.context.atEnd with
  | true =>
    rw [walk_of_atEnd limit hend] at h
    cases h
    exact .inl ⟨hend, rfl, handled_of_atEnd limit hend⟩
  | false =>
    cases limit with
    | zero =>
      rw [walk, context_bind_apply, hend] at h
      cases h
    | succ rest =>
      rw [walk_succ_of_inside hend] at h
      obtain ⟨_, t', hstep, hwalk⟩ := ok_of_bind h
      rw [step_eq] at hstep
      obtain ⟨_, t, hprepare, hlater⟩ := ok_of_bind hstep
      rw [context_bind_apply] at hlater
      cases hinside : t.context.atEnd with
      | true =>
        rw [if_pos hinside] at hlater
        cases hlater
        rw [walk_of_atEnd rest hinside] at hwalk
        cases hwalk
        refine .inl ⟨hinside, eq_of_prepare hprepare, ?_⟩
        rw [handled, hend, hprepare]
        dsimp only
        rw [hinside]
        rfl
      | false =>
        rw [hinside] at hlater
        exact .inr ⟨rest, t, t', rfl, hprepare, hinside, hlater, hwalk,
          handled_of_inside hend hprepare hinside hlater⟩

/-- The moves of a run lead to the sessions in which its characters are handled. -/
theorem moves_of_handled {limit : Nat} (ht : t ∈ handled G L limit s) : Moves G L s t := by
  induction limit generalizing s with
  | zero => cases ht
  | succ limit ih =>
    unfold handled at ht
    split at ht
    · cases ht
    · split at ht
      · cases ht
      · next v hprepare =>
        have hv := Follows.prepare (G := G) (L := L) s
        rw [after_of_ok hprepare] at hv
        split at ht
        · cases ht
        · rcases List.mem_cons.1 ht with rfl | ht
          · exact hv
          · split at ht
            · cases ht
            · next u hhandle =>
              have hu := Follows.handle (G := G) (L := L) v
              rw [after_of_ok hhandle] at hu
              exact (hv.trans hu).trans (ih ht)

theorem moves_of_handledFrom {initial : σ} {limit : Nat} (ht : t ∈ handledFrom G L initial limit s) :
    Moves G L s t := by
  unfold handledFrom at ht
  split at ht
  · cases ht
  · next v henter =>
    have hv := Follows.enter (G := G) (L := L) initial s
    rw [after_of_ok henter] at hv
    exact hv.trans (moves_of_handled ht)

end

theorem onEnter_of_isRoot {b : StateName} (hroot : b.isRoot = true) :
    (grammar b).onEnter = .skip := by
  cases b <;> first | rfl | cases hroot

/-! ## Two walks -/

section

variable {τ : Type} {L : Listener StateName τ} {s t u : Session StateName τ} {F : Footing}
  {text : Text}

/-- A program in tandem with itself leaves the line and the cursor alone. -/
theorem within_of_tandem {p : Machine StateName τ Unit}
    (hp : Tandem grammar L (fun f => f) (t.context.footing.Moment t.context.location) p)
    (h : p t = .ok () u) : u.context.Within (t.context.footing.Moment t.context.location) := by
  have hstays := hp.stays t ⟨rfl, rfl⟩
  rw [after_of_ok h] at hstays
  exact hstays

variable (hL : L.IsLocal)
include hL

theorem within_of_dispatch (h : dispatch grammar L t = .ok () u) :
    u.context.Within (t.context.footing.Moment t.context.location) :=
  within_of_tandem (.dispatch (.refl _ _) hL trivial) h

theorem within_of_enter {b : StateName} (h : enter grammar L b t = .ok () u) :
    u.context.Within (t.context.footing.Moment t.context.location) :=
  within_of_tandem (.enter (.refl _ _) hL trivial) h

theorem within_of_finish (h : finish grammar L t = .ok () u) :
    u.context.Within (t.context.footing.Moment t.context.location) :=
  within_of_tandem (.finish (.refl _ _) hL (fun _ => trivial) (fun _ => trivial)
    (fun _ => trivial) fun _ _ => rfl) h

theorem after_handle (h : handle grammar L t = .ok () u) :
    u.context.footing = t.context.footing ∧ u.context.location = t.context.location + 1 := by
  obtain ⟨_, v, hdispatch, hadvance⟩ := ok_of_bind h
  obtain ⟨hfooting, hlocation⟩ := within_of_dispatch hL hdispatch
  obtain ⟨-, rfl⟩ := eq_of_advance hadvance
  exact ⟨hfooting, congrArg (· + 1) hlocation⟩

section

variable (hline : F.line = Line.ofText text) (hstrict : F.strict = t.context.strict)
  (halike : t.context.SeesAlike F) (hforesees : t.context.foresees text = true)
  (hinside : t.context.atEnd = false)
include hline hstrict halike hforesees hinside

/-- The character under the cursor is handled alike on another line that shows it. -/
theorem dispatch_via :
    dispatch grammar L (t.via fun _ => F) = carry (fun _ => F) (dispatch grammar L t) := by
  rw [Context.atEnd_eq_isNone, Option.isNone_eq_false_iff, Option.isSome_iff_exists] at hinside
  obtain ⟨d, hd⟩ := hinside
  cases hgap : Text.isGap d with
  | true => exact dispatch_watchful hL hstrict halike hd hgap hline hforesees
  | false => exact dispatch_sightless hL hstrict halike hd hgap

theorem handle_via :
    handle grammar L (t.via fun _ => F) = carry (fun _ => F) (handle grammar L t) := by
  have hvia := dispatch_via hL hline hstrict halike hforesees hinside
  cases hdispatch : dispatch grammar L t with
  | error fault v =>
    rw [hdispatch] at hvia
    rw [handle, bind_apply_of_error hvia, bind_apply_of_error hdispatch]
    rfl
  | ok a v =>
    rw [hdispatch] at hvia
    obtain ⟨hfooting, hlocation⟩ := within_of_dispatch hL hdispatch
    have hv : v.context.SeesAlike F := halike.of_eq (congrArg Footing.line hfooting) hlocation
    have hinput : v.context.input = t.context.input :=
      congrArg (fun f => f.line.substituted) hfooting
    have hend : v.context.atEnd = false := by
      rw [Context.atEnd, hinput, hlocation]
      exact hinside
    rw [handle, bind_apply_of_ok hvia, bind_apply_of_ok hdispatch, advance_apply, advance_apply,
      show (v.via fun _ => F).context.atEnd = false from hv.atEnd.trans hend, hend]
    rfl

end

/-- The character that was handled still stands there when the walk has ended. -/
theorem getElem?_of_walk {limit : Nat} (hinside : t.context.atEnd = false)
    (hhandle : handle grammar L t = .ok () s) (hwalk : walk grammar L limit s = .ok () u) :
    u.context.input[t.context.location]? = t.context.character? := by
  obtain ⟨hfooting, hlocation⟩ := after_handle hL hhandle
  have hinput : s.context.input = t.context.input :=
    congrArg (fun f => f.line.substituted) hfooting
  have hlt : t.context.location < t.context.input.length := by
    simpa [Context.atEnd] using hinside
  have hlater := (Follows.walk (G := grammar) (L := L) limit s).later (by
    rw [hinput, hlocation]
    exact hlt)
  rw [after_of_ok hwalk] at hlater
  have hsettled := hlater.settled
  rw [hinput, hlocation] at hsettled
  have h := congrArg (fun taken => taken[t.context.location]?) hsettled
  rw [List.getElem?_take_of_succ, List.getElem?_take_of_succ] at h
  exact h

section

variable (hline : F.line = Line.ofText text)
include hline

omit hL in
/-- The second run ends where the text ends. -/
theorem atEnd_via (s : Session StateName τ) :
    (s.via fun _ => F).context.atEnd = decide (text.length ≤ s.context.location) := by
  show decide (F.line.substituted.length ≤ _) = _
  rw [hline]
  rfl

variable (hplain : F.settings.substitutes = false)
include hplain

/-- One round of both walks. -/
theorem step_via {limit : Nat} {t' : Session StateName τ} (hprepare : prepare s = .ok () t)
    (hinside : t.context.atEnd = false) (hhandle : handle grammar L t = .ok () t')
    (hwalk : walk grammar L limit t' = .ok () u) (htext : u.context.input = text)
    (hforesees : t.context.foresees text = true) (hstrict : F.strict = s.context.strict) :
    s.context.location < text.length ∧
      step grammar L (s.via fun _ => F) = .ok () (t'.via fun _ => F) := by
  have ht := eq_of_prepare hprepare
  have halike : t.context.SeesAlike F := by
    show F.line.substituted[t.context.location]? = t.context.character?
    rw [hline, ← getElem?_of_walk hL hinside hhandle hwalk, htext]
    rfl
  have htstrict : F.strict = t.context.strict := by rw [hstrict, ht]
  have hhandled := handle_via hL hline htstrict halike hforesees hinside
  have hvia : (t.via fun _ => F).context.atEnd = false := halike.atEnd.trans hinside
  rw [hhandle] at hhandled
  rw [via_of_line ht] at hhandled hvia
  constructor
  · rw [atEnd_via hline, decide_eq_false_iff_not] at hvia
    exact Nat.lt_of_not_le hvia
  · rw [step_of_inside (prepare_of_plain hplain) hvia]
    exact hhandled

/-- A walk that goes through is repeated on the line as it reads at the end, if every look that is
taken on the way gives the answer that it gives there. -/
theorem walk_via {limit room : Nat} (h : walk grammar L limit s = .ok () u)
    (htext : u.context.input = text)
    (hforesees : ∀ t ∈ handled grammar L limit s, t.context.foresees text = true)
    (hstrict : F.strict = s.context.strict)
    (hroom : text.length ≤ s.context.location + room) :
    walk grammar L room (s.via fun _ => F) = .ok () (u.via fun _ => F) := by
  have ended {s : Session StateName τ} (room : Nat) (huend : u.context.atEnd = true)
      (hu : u = { s with context := { s.context with line := u.context.line } }) :
      walk grammar L room (s.via fun _ => F) = .ok () (u.via fun _ => F) := by
    rw [via_of_line hu]
    refine walk_of_atEnd room ((atEnd_via hline s).trans ?_)
    rw [Context.atEnd, htext, hu] at huend
    exact huend
  induction limit generalizing s room with
  | zero =>
    rcases walk_cases h with ⟨huend, hu, -⟩ | ⟨rest, t, t', hlimit, -⟩
    · exact ended room huend hu
    · cases hlimit
  | succ limit ih =>
    rcases walk_cases h with ⟨huend, hu, -⟩ | ⟨rest, t, t', hlimit, hround⟩
    · exact ended room huend hu
    · cases hlimit
      obtain ⟨hprepare, hinside, hhandle, hwalk, hhandled⟩ := hround
      rw [hhandled] at hforesees
      obtain ⟨hlt, hstep⟩ := step_via hL hline hplain hprepare hinside hhandle hwalk htext
        (hforesees t List.mem_cons_self) hstrict
      obtain ⟨hfooting, hlocation⟩ := after_handle hL hhandle
      have ht := eq_of_prepare hprepare
      have htlocation : t.context.location = s.context.location := by rw [ht]
      have htstrict : F.strict = t.context.strict := by rw [hstrict, ht]
      -- the second walk has room for this round, too
      obtain ⟨room, rfl⟩ : ∃ rest, room = rest + 1 := ⟨room - 1, by omega⟩
      have hvia : (s.via fun _ => F).context.atEnd = false := by
        rw [atEnd_via hline, decide_eq_false_iff_not]
        exact Nat.not_le_of_lt hlt
      rw [walk_succ_of_inside hvia, bind_apply_of_ok hstep]
      refine ih hwalk (fun v hv => hforesees v (List.mem_cons_of_mem _ hv)) ?_ ?_
      · exact htstrict.trans (congrArg Footing.strict hfooting).symm
      · omega

end

/-! ## Two runs -/

omit hL in
theorem tell_via {signal : Signal StateName}
    (hhear : L.hear signal (t.context.onto F) t.gathered = L.hear signal t.context t.gathered)
    (hstrict : F.strict = t.context.strict) :
    tell L signal (t.via fun _ => F) = carry (fun _ => F) (tell L signal t) := by
  have hheard : heard L signal (t.via fun _ => F) = (heard L signal t).via fun _ => F := by
    show Session.mk _ (L.hear signal (t.context.onto F) t.gathered).gathered = _
    rw [hhear]
    rfl
  have hverdict : (L.hear signal (t.via fun _ => F).context (t.via fun _ => F).gathered).verdict =
      (L.hear signal t.context t.gathered).verdict := congrArg Reply.verdict hhear
  rw [tell_apply, tell_apply, hheard, hverdict]
  cases (L.hear signal t.context t.gathered).verdict with
  | accept => rfl
  | refuse fault => rfl
  | complain e =>
    show complain e _ = carry _ (complain e _)
    rw [complain_apply, complain_apply]
    show (if F.strict then _ else _) = carry _ (if t.context.strict then _ else _)
    rw [hstrict]
    cases t.context.strict <;> rfl

section

variable {b : StateName} (hroot : b.isRoot = true)
  (hentered : ∀ (c : Context StateName) (f : Footing) (gathered : τ),
    L.hear (.entered b) (c.onto f) gathered = L.hear (.entered b) c gathered)
  (hstrict : F.strict = s.context.strict)
include hroot hentered hstrict

omit hL in
/-- Both runs enter their first state alike, whatever stands under the cursor. -/
theorem enter_via (h : enter grammar L b s = .ok () u) :
    enter grammar L b (s.via fun _ => F) = .ok () (u.via fun _ => F) := by
  rw [Machine.enter, enterBy_eq, onEnter_of_isRoot hroot] at h ⊢
  obtain ⟨_, t, hopening, hrest⟩ := ok_of_bind h
  obtain ⟨_, v, htell, hskip⟩ := ok_of_bind hrest
  have opens : Tandem grammar L (fun _ => F) (s.context.footing.Moment s.context.location)
      (opening grammar b) := .opening b
  have hstay := opens.stays s ⟨rfl, rfl⟩
  rw [after_of_ok hopening] at hstay
  have hvia := opens.same_of_strict (strict_of_moment hstrict) ⟨rfl, rfl⟩
  rw [hopening] at hvia
  have htellvia := tell_via (hentered _ _ _) (strict_of_moment hstrict t.context hstay)
  rw [htell] at htellvia
  cases hskip
  rw [bind_apply_of_ok hvia, bind_apply_of_ok htellvia]
  rfl

/-- A run that goes through is repeated on the line as it reads at the end, if every look that is
taken on the way gives the answer that it gives there. -/
theorem readFrom_via (hline : F.line = Line.ofText text)
    (hplain : F.settings.substitutes = false)
    (hdepth : F.settings.maxDepth = s.context.settings.maxDepth) {limit room : Nat}
    (h : readFrom grammar L b limit s = .ok () u) (htext : u.context.input = text)
    (hforesees : ∀ t ∈ handledFrom grammar L b limit s, t.context.foresees text = true)
    (hroom : text.length ≤ s.context.location + room) :
    readFrom grammar L b room (s.via fun _ => F) = .ok () (u.via fun _ => F) := by
  obtain ⟨_, t, henter, hrest⟩ := ok_of_bind h
  obtain ⟨_, v, hwalk, hfinish⟩ := ok_of_bind hrest
  obtain ⟨htfooting, htlocation⟩ := within_of_enter hL henter
  have hvinput : v.context.input = text := by
    rw [← htext]
    exact congrArg (fun f => f.line.substituted) (within_of_finish hL hfinish).1.symm
  have hvmoves := Follows.walk (G := grammar) (L := L) limit t
  rw [after_of_ok hwalk] at hvmoves
  have htstrict : F.strict = t.context.strict :=
    hstrict.trans (congrArg Footing.strict htfooting).symm
  have hvdepth : F.settings.maxDepth = v.context.settings.maxDepth := by
    rw [hdepth, hvmoves.settings_eq]
    exact congrArg (fun f => f.settings.maxDepth) htfooting.symm
  have hhandled : handledFrom grammar L b limit s = handled grammar L limit t := by
    rw [handledFrom, henter]
  rw [hhandled] at hforesees
  rw [← htlocation] at hroom
  have hwalkvia := walk_via hL hline hplain hwalk hvinput hforesees htstrict hroom
  have halike : v.context.SeesAlike F := by
    show F.line.substituted[_]? = v.context.input[_]?
    rw [hline, hvinput]
    rfl
  have hfinishvia := finish_calm hL (htstrict.trans hvmoves.strict_eq.symm) halike hvdepth
  rw [hfinish] at hfinishvia
  rw [readFrom, bind_apply_of_ok (enter_via hroot hentered hstrict henter),
    bind_apply_of_ok hwalkvia, hfinishvia]
  rfl

end
end
end Machine

/-! ## A line and its substituted text -/

/-- The same outcome on the substituted text, in which nothing was substituted. -/
def Result.plain (r : Result) : Result := { r with line := Line.ofText r.line.substituted }

namespace Graph

open Machine Text

/-- A line whose text is not blank in the end has been read. -/
theorem readText_of_read {σ τ : Type} {G : Graph σ} {L : Listener σ τ} {settings : Settings}
    {strict : Bool} {initial : σ} {line : Option Text} {gathered g : τ} {r : Result}
    (h : G.read settings strict L initial line gathered = (g, .ok r))
    (hsolid : isBlankText r.line.substituted = false) :
    G.readText settings strict L initial (line.getD []) gathered = (g, .ok r) := by
  unfold read at h
  dsimp only at h
  cases hblank : isBlankText (line.getD []) with
  | false =>
    rw [hblank] at h
    exact h
  | true =>
    rw [if_pos hblank] at h
    cases h
    exact absurd (hblank.symm.trans hsolid) nofun

theorem readText_plain {τ : Type} {L : Listener StateName τ} (hL : L.IsLocal) {b : StateName}
    (hroot : b.isRoot = true)
    (hentered : ∀ (c : Context StateName) (f : Footing) (gathered : τ),
      L.hear (.entered b) (c.onto f) gathered = L.hear (.entered b) c gathered)
    {settings : Settings} {strict : Bool} {text : Text} {gathered g : τ} {r : Result}
    (h : grammar.readText settings strict L b text gathered = (g, .ok r))
    (hforesees : ∀ t ∈ handledFrom grammar L b (positionLimit settings text)
      (Session.start settings strict text gathered),
      t.context.foresees r.line.substituted = true) :
    grammar.readText settings.plain strict L b r.line.substituted gathered = (g, .ok r.plain) := by
  unfold readText at h ⊢
  cases hrun : readFrom grammar L b (positionLimit settings text)
      (Session.start settings strict text gathered) with
  | error fault u =>
    rw [hrun] at h
    cases h
  | ok a u =>
    rw [hrun] at h
    cases h
    -- the second run stands on the final text from the beginning
    have hroom : u.context.input.length ≤ (Session.start (σ := StateName) settings strict text
        gathered).context.location + positionLimit settings.plain u.context.input :=
      Nat.le_trans (length_le_positionLimit _ _) (Nat.le_add_left _ _)
    have hvia := readFrom_via (F := ⟨settings.plain, strict, Line.ofText u.context.input⟩)
      hL hroot hentered rfl rfl rfl rfl hrun rfl hforesees hroom
    have hstart : Session.start (σ := StateName) settings.plain strict u.context.input gathered =
        (Session.start settings strict text gathered).via fun _ =>
          ⟨settings.plain, strict, Line.ofText u.context.input⟩ := rfl
    rw [show u.context.result.line.substituted = u.context.input from rfl, hstart, hvia]
    rfl

end Graph

namespace Event

open Machine Text

/-- Every look that is taken in reading a line gives the answer that it gives on the text. -/
def foresees (settings : Settings) (strict : Bool) (entrance : Entrance) (line : Option Text)
    (text : Text) : Bool :=
  (handledFrom grammar (Reader.listener Handler.collecting) entrance.state
    (positionLimit settings (line.getD []))
    (Session.start settings strict (line.getD []) ({}, []))).all fun t => t.context.foresees text

/-- Reading a line reports what reading its substituted text reports without any substitution. -/
def Transparent (settings : Settings) (strict : Bool) (entrance : Entrance) (line : Option Text)
    (r : Result) : Prop :=
  ∃ events,
    ofLine settings strict entrance line = (events ++ [.parsed r], .ok r) ∧
    ofLine settings.plain strict entrance (some r.line.substituted) =
      (events ++ [.parsed r.plain], .ok r.plain)

section

variable {settings : Settings} {strict : Bool} {entrance : Entrance} {line : Option Text}
  {r : Result}

/-- Both runs report the same until they report that the line has been read. -/
theorem Transparent.same_events (h : Transparent settings strict entrance line r) :
    (ofLine settings strict entrance line).1.dropLast =
      (ofLine settings.plain strict entrance (some r.line.substituted)).1.dropLast := by
  obtain ⟨events, hline, htext⟩ := h
  rw [hline, htext, List.dropLast_concat, List.dropLast_concat]

theorem transparent_of_foresees (hr : (ofLine settings strict entrance line).2 = .ok r)
    (hsolid : isBlankText r.line.substituted = false)
    (hforesees : foresees settings strict entrance line r.line.substituted = true) :
    Transparent settings strict entrance line r := by
  unfold Transparent
  rw [ofLine_eq] at hr ⊢
  rw [ofLine_eq]
  cases hread : grammar.read settings strict (Reader.listener Handler.collecting) entrance.state
      line ({}, []) with
  | mk heard outcome =>
    rw [hread] at hr
    cases outcome with
    | error fault => cases hr
    | ok result =>
      cases hr
      have hplain := Graph.readText_plain (Reader.isLocal_listener _) entrance.isRoot_state
        (Reader.hear_entered_onto _ _) (Graph.readText_of_read hread hsolid)
        (List.all_eq_true.1 hforesees)
      rw [Graph.read_of_not_isBlankText hsolid, hplain]
      exact ⟨heard.2, rfl, rfl⟩

end
end Event

/-! ## Lists of arguments -/

namespace Machine

section

variable {τ : Type} {L : Listener StateName τ} {b : StateName}
  {J : List StateName → τ → Prop} {E : τ → Prop} {s t : Session StateName τ} {strict : Bool}
  {initial : τ} (attends : L.Attends b initial J E)
include attends

/-- A character is only handled where the active states are nested. -/
theorem tracks_of_handled {limit : Nat} (h : Tracks J b strict s)
    (ht : t ∈ handled grammar L limit s) : Tracks J b strict t ∧ t.context.atEnd = false := by
  induction limit generalizing s with
  | zero => cases ht
  | succ limit ih =>
    unfold handled at ht
    split at ht
    · cases ht
    · split at ht
      · cases ht
      · next v hprepare =>
        have hv : Tracks J b strict v := ((ends_prepare attends h).ok hprepare).1
        split at ht
        · cases ht
        · next hinside =>
          rw [Bool.not_eq_true] at hinside
          rcases List.mem_cons.1 ht with rfl | ht
          · exact ⟨hv, hinside⟩
          · split at ht
            · cases ht
            · next u hhandle =>
              exact ih ((ends_handle attends hv hinside).ok hhandle).1 ht

theorem tracks_of_handledFrom {limit : Nat} (hroot : b.isRoot = true)
    (hstart : s.context.active = []) (hinitial : s.gathered = initial)
    (hstrict : s.context.strict = strict) (ht : t ∈ handledFrom grammar L b limit s) :
    Tracks J b strict t ∧ t.context.atEnd = false := by
  unfold handledFrom at ht
  split at ht
  · cases ht
  · next v henter =>
    have hv := ((ends_enter attends hroot hstart hinitial hstrict).ok henter).1
    exact tracks_of_handled attends hv ht

end

/-- While arguments are read no looks are taken. -/
theorem foresees_of_handledFrom {τ : Type} {L : Listener StateName τ}
    {J : List StateName → τ → Prop} {E : τ → Prop} {s t : Session StateName τ} {initial : τ}
    (attends : L.Attends .argumentList initial J E) {limit : Nat}
    (hstart : s.context.active = []) (hinitial : s.gathered = initial)
    (ht : t ∈ handledFrom grammar L .argumentList limit s) (text : Text) :
    t.context.foresees text = true := by
  obtain ⟨htracks, hinside⟩ := tracks_of_handledFrom attends rfl hstart hinitial rfl ht
  refine Context.foresees_of_isSightless text fun f hf => ?_
  obtain ⟨d, hd⟩ : ∃ d, t.context.character? = some d := by
    rw [Context.atEnd_eq_isNone, Option.isNone_eq_false_iff, Option.isSome_iff_exists] at hinside
    exact hinside
  have hpart : f.state.isArgumentPart = true :=
    htracks.nested.isArgumentPart (List.mem_of_mem_head? (Context.active_of_frame? hf))
  rw [Context.character, hd]
  exact isSightless_actionFor f.state fun _ => StateName.isSightless_gapAction hpart

end Machine

namespace Event

open Machine

/-- Reading a list of arguments takes no looks. -/
theorem foresees_arguments (settings : Settings) (strict : Bool) (line : Option Text)
    (text : Text) : foresees settings strict .arguments line text = true :=
  List.all_eq_true.2 fun _ ht => foresees_of_handledFrom
    ((Reader.steady_collecting .arguments).attends rfl trivial) rfl rfl ht text

/-! ## Transparency -/

section

variable {settings : Settings} {strict : Bool} {line : Option Text} {r : Result}

/-- Substitution is transparent for a command if every look around a separator that is taken while
the command is read gives the answer that it gives on the substituted text. -/
theorem command_transparent (hr : (ofLine settings strict .command line).2 = .ok r)
    (hsolid : Text.isBlankText r.line.substituted = false)
    (hforesees : foresees settings strict .command line r.line.substituted = true) :
    Transparent settings strict .command line r :=
  transparent_of_foresees hr hsolid hforesees

theorem command_transparent_of_plain_name :
    Transparent (.ofVariable ['x'] ['b']) true .command (some ['/', 'a', ' ', '$', 'x'])
      { line := ⟨['/', 'a', ' ', '$', 'x'], ['/', 'a', ' ', 'b'], [⟨['$', 'x'], ['b'], 3, 3⟩]⟩
        valueIndex := 3 } :=
  command_transparent (by decide +kernel) (by decide) (by decide +kernel)

/-- Without that it is not: in `/a $x` the gap ends the address, for no separator follows it yet;
once `$x` stands for `/b`, the gap is one before a separator and `b` is a node. -/
theorem command_not_transparent :
    (ofLine (.ofVariable ['x'] ['/', 'b']) true .command (some ['/', 'a', ' ', '$', 'x'])).2 =
        .ok { line := ⟨['/', 'a', ' ', '$', 'x'], ['/', 'a', ' ', '/', 'b'],
                [⟨['$', 'x'], ['/', 'b'], 3, 3⟩]⟩
              valueIndex := 3 } ∧
      Text.isBlankText ['/', 'a', ' ', '/', 'b'] = false ∧
      ¬ Transparent (.ofVariable ['x'] ['/', 'b']) true .command (some ['/', 'a', ' ', '$', 'x'])
        { line := ⟨['/', 'a', ' ', '$', 'x'], ['/', 'a', ' ', '/', 'b'],
            [⟨['$', 'x'], ['/', 'b'], 3, 3⟩]⟩
          valueIndex := 3 } := by
  refine ⟨by decide +kernel, by decide, fun h => absurd h.same_events ?_⟩
  decide +kernel

/-- Substitution is transparent for every list of arguments: reading the substituted text reports
the same events, the same start of the last value and the same error. -/
theorem arguments_transparent (hr : (ofLine settings strict .arguments line).2 = .ok r)
    (hsolid : Text.isBlankText r.line.substituted = false) :
    Transparent settings strict .arguments line r :=
  transparent_of_foresees hr hsolid (foresees_arguments settings strict line r.line.substituted)

theorem arguments_transparent_of_open_bracket :
    Transparent (.ofVariable ['x'] ['b', ' ', '-', 'c']) false .arguments
      (some ['$', 'x', '=', '['])
      { line := ⟨['$', 'x', '=', '['], ['b', ' ', '-', 'c', '=', '['],
          [⟨['$', 'x'], ['b', ' ', '-', 'c'], 0, 0⟩]⟩
        valueIndex := 2
        error := some (.valueNotFinished [']'] 5) } :=
  arguments_transparent (by decide +kernel) (by decide)

end
end Event
end CommandLine
