/-
# `CommandLine.Proofs.Sheltered` — text that is out of reach of substitution

Back quotes and escapes switch expressions off for what they hold.  Whether they do so at a given
`$` depends on all the states that are active there, so the line alone does not tell; but a run
without any substitution does.  If in that run each `$` is met where expressions are off, it is
*sheltered*, and then no configuration can make a difference:

    nothing is found to be replaced, under any settings        (`prepare_of_shelters`)
    so both runs do the same for each character                (`walk_sheltered`)
    and they end alike, on the line as it was typed            (`readText_sheltered`)

Only the number of states that may be active at once is common to both configurations.
-/
import CommandLine.Proofs.Transparency

namespace CommandLine

open Text

namespace Context

variable {σ : Type}

/-- A `$` under the cursor stands where expressions are off. -/
def Shelters (c : Context σ) : Prop :=
  c.character? = some '$' → c.expressionsEnabled = false

instance (c : Context σ) : Decidable c.Shelters :=
  inferInstanceAs (Decidable (_ → _))

/-- Only a `$` starts something that is replaced. -/
theorem resolveHere_of_ne_dollar {c : Context σ} (h : c.character? ≠ some '$') :
    c.resolveHere = .ok none := by
  have hhead : (c.input.drop c.location).head? ≠ some '$' := by
    rw [List.head?_drop]
    exact h
  unfold resolveHere
  split
  · next hdrop =>
    rw [hdrop] at hhead
    exact absurd rfl hhead
  · next hdrop =>
    rw [hdrop] at hhead
    exact absurd rfl hhead
  · rfl

end Context

namespace Machine

section

variable {σ τ : Type} {G : Graph σ} {L : Listener σ τ} {s : Session σ τ}

/-- Where the cursor is sheltered there is nothing to prepare. -/
theorem prepare_of_shelters (h : s.context.Shelters) : prepare s = .ok () s := by
  unfold prepare
  rw [context_bind_apply]
  cases hon : s.context.expressionsEnabled with
  | false => rfl
  | true =>
    have hnone : s.context.resolveHere = .ok none := by
      refine Context.resolveHere_of_ne_dollar ?_
      intro hdollar
      exact absurd (h hdollar) (ne_false_of_eq_true hon)
    rw [if_pos rfl, resolve_apply, Context.resolve_of_none hnone]

/-- Without substitution a walk handles each character that it comes to. -/
theorem handled_of_plain {limit : Nat} (hplain : s.context.settings.substitutes = false)
    (hinside : s.context.atEnd = false) :
    handled G L (limit + 1) s = s :: match handle G L s with
      | .error _ _ => []
      | .ok _ t => handled G L limit t := by
  rw [handled, hinside, prepare_of_plain hplain]
  dsimp only
  rw [hinside]
  rfl

end

section

variable {τ : Type} {L : Listener StateName τ} {s t : Session StateName τ} {F H : Footing}

theorem seesAlike_line (hline : H.line = F.line) (hfooting : s.context.footing = F) :
    s.context.SeesAlike H := by
  have hsame : H.line = s.context.line := hline.trans (congrArg Footing.line hfooting).symm
  show H.line.substituted[s.context.location]? = s.context.line.substituted[s.context.location]?
  rw [hsame]

/-- Two footings with the same line are in concord, whatever is performed. -/
theorem concord_line (hline : H.line = F.line) (hstrict : H.strict = F.strict) :
    Concord grammar (fun _ => H) (fun f _ => f = F) fun _ => True where
  strict hc h := (congrArg Footing.strict hc).trans (hstrict.symm.trans h)
  alike {c} hc := seesAlike_line (s := ⟨c, ()⟩) hline hc
  looks {c following preceding a} hc _ := by
    have hsame : H.line = c.line := hline.trans (congrArg Footing.line hc).symm
    simp only [Context.isBesideSeparator, Context.nextSolid?, Context.lastSolid?, Context.input,
      Context.line_onto, Context.location_onto]
    rw [hsame]
  closed _ _ := trivial
  dispatched _ _ _ := trivial

variable (hL : L.IsLocal) (hline : H.line = F.line) (hstrict : H.strict = F.strict)
include hL hline hstrict

theorem handle_line (hfooting : s.context.footing = F) :
    handle grammar L (s.via fun _ => H) = carry (fun _ => H) (handle grammar L s) := by
  have hhandle := Tandem.handle (concord_line hline hstrict) hL
    (fun c hc => hline.trans (congrArg Footing.line hc).symm) (fun h => h) trivial
  refine hhandle.same_of_strict ?_ hfooting
  intro c hc
  exact hstrict.trans (congrArg Footing.strict hc).symm

variable (hplain : F.settings.substitutes = false)
include hplain

/-- Two walks along one line do the same if the first one substitutes nothing and each `$` that it
meets is sheltered.  Neither runs out of room. -/
theorem walk_sheltered {limit room : Nat} (hfooting : s.context.footing = F)
    (hlimit : s.context.input.length ≤ s.context.location + limit)
    (hroom : s.context.input.length ≤ s.context.location + room)
    (hshelters : ∀ t ∈ handled grammar L limit s, t.context.Shelters) :
    walk grammar L room (s.via fun _ => H) = carry (fun _ => H) (walk grammar L limit s) := by
  induction limit generalizing s room with
  | zero =>
    have hend : s.context.atEnd = true := decide_eq_true hlimit
    rw [walk_of_atEnd 0 hend,
      walk_of_atEnd room ((seesAlike_line hline hfooting).atEnd.trans hend)]
    rfl
  | succ limit ih =>
    have halike := seesAlike_line hline hfooting
    have hsettings : s.context.settings.substitutes = false := by
      rw [show s.context.settings = F.settings from congrArg Footing.settings hfooting]
      exact hplain
    cases hinside : s.context.atEnd with
    | true =>
      rw [walk_of_atEnd _ hinside, walk_of_atEnd room (halike.atEnd.trans hinside)]
      rfl
    | false =>
      have hlt : s.context.location < s.context.input.length := by
        simpa [Context.atEnd] using hinside
      obtain ⟨room, rfl⟩ : ∃ rest, room = rest + 1 := ⟨room - 1, by omega⟩
      rw [handled_of_plain hsettings hinside] at hshelters
      obtain ⟨hhere, hlater⟩ := List.forall_mem_cons.1 hshelters
      -- the character and the scope are the same in both runs, so neither replaces anything
      have hthere : (s.via fun _ => H).context.Shelters := by
        intro hdollar
        exact hhere (halike.symm.trans hdollar)
      have hhandle := handle_line hL hline hstrict hfooting
      rw [walk_succ_of_prepare hinside (prepare_of_plain hsettings) hinside,
        walk_succ_of_prepare (halike.atEnd.trans hinside) (prepare_of_shelters hthere)
          (halike.atEnd.trans hinside)]
      cases hrun : handle grammar L s with
      | error fault t =>
        rw [hrun] at hhandle
        rw [bind_apply_of_error hrun, bind_apply_of_error hhandle]
        rfl
      | ok a t =>
        rw [hrun] at hhandle hlater
        obtain ⟨htfooting, htlocation⟩ := after_handle hL hrun
        have hinput : t.context.input = s.context.input :=
          congrArg (fun f => f.line.substituted) htfooting
        rw [bind_apply_of_ok hrun, bind_apply_of_ok hhandle]
        exact ih (htfooting.trans hfooting) (by rw [hinput]; omega) (by rw [hinput]; omega) hlater

/-- A run whose `$` are all sheltered is the same under any other settings. -/
theorem readFrom_sheltered {b : StateName} (hdepth : H.settings.maxDepth = F.settings.maxDepth)
    {limit room : Nat} (hfooting : s.context.footing = F)
    (hlimit : s.context.input.length ≤ s.context.location + limit)
    (hroom : s.context.input.length ≤ s.context.location + room)
    (hshelters : ∀ t ∈ handledFrom grammar L b limit s, t.context.Shelters) :
    readFrom grammar L b room (s.via fun _ => H) =
      carry (fun _ => H) (readFrom grammar L b limit s) := by
  have concord := concord_line (F := F) (H := H) hline hstrict
  have hsame : ∀ c : Context StateName, c.Within (fun f _ => f = F) →
      H.strict = c.strict := by
    intro c hc
    exact hstrict.trans (congrArg Footing.strict hc).symm
  have enters : Tandem grammar L (fun _ => H) (fun f _ => f = F) (enter grammar L b) :=
    .enter concord hL trivial
  have henter := enters.same_of_strict hsame hfooting
  unfold readFrom
  cases hentered : enter grammar L b s with
  | error fault t =>
    rw [hentered] at henter
    rw [bind_apply_of_error hentered, bind_apply_of_error henter]
    rfl
  | ok a t =>
    rw [hentered] at henter
    obtain ⟨htfooting, htlocation⟩ := within_of_enter hL hentered
    have hinput : t.context.input = s.context.input :=
      congrArg (fun f => f.line.substituted) htfooting
    rw [handledFrom, hentered] at hshelters
    have hwalk : walk grammar L room (t.via fun _ => H) =
        carry (fun _ => H) (walk grammar L limit t) :=
      walk_sheltered hL hline hstrict hplain (htfooting.trans hfooting)
        (by rw [hinput]; omega) (by rw [hinput]; omega) hshelters
    rw [bind_apply_of_ok hentered, bind_apply_of_ok henter]
    cases hwalked : walk grammar L limit t with
    | error fault u =>
      rw [hwalked] at hwalk
      rw [bind_apply_of_error hwalked, bind_apply_of_error hwalk]
      rfl
    | ok a u =>
      rw [hwalked] at hwalk
      have htsettings : t.context.settings.substitutes = false := by
        rw [show t.context.settings = F.settings from
          congrArg Footing.settings (htfooting.trans hfooting)]
        exact hplain
      have hmoves := Follows.walk (G := grammar) (L := L) limit t
      rw [after_of_ok hwalked] at hmoves
      have hufooting : u.context.footing = F :=
        (hmoves.footing_of_plain htsettings).trans (htfooting.trans hfooting)
      have hfinish := Tandem.finish concord hL (fun _ => trivial) (fun _ => trivial)
        (fun _ => trivial) fun c hc =>
          hdepth.trans (congrArg (fun f => f.settings.maxDepth) hc).symm
      rw [bind_apply_of_ok hwalked, bind_apply_of_ok hwalk]
      exact hfinish.same_of_strict hsame hufooting

end
end Machine

/-! ## Reading under two configurations -/

open Machine

/-- Without substitution each `$` of the line that is met is sheltered. -/
def Sheltered {τ : Type} (L : Listener StateName τ) (settings : Settings) (strict : Bool)
    (b : StateName) (text : Text) (gathered : τ) : Prop :=
  ∀ t ∈ handledFrom grammar L b (positionLimit settings.plain text)
    (Session.start settings.plain strict text gathered), t.context.Shelters

section

variable {τ : Type} {L : Listener StateName τ} {settings : Settings} {strict : Bool}
  {b : StateName} {text : Text} {gathered : τ}

instance : Decidable (Sheltered L settings strict b text gathered) :=
  inferInstanceAs (Decidable (∀ t ∈ handledFrom grammar L b _ _, t.context.Shelters))

variable (hL : L.IsLocal) (hsheltered : Sheltered L settings strict b text gathered)
include hL hsheltered

/-- The run under the settings is the run without substitution, on their footing. -/
theorem readFrom_plain :
    readFrom grammar L b (positionLimit settings text)
        (Session.start settings strict text gathered) =
      carry (fun _ => ⟨settings, strict, Line.ofText text⟩)
        (readFrom grammar L b (positionLimit settings.plain text)
          (Session.start settings.plain strict text gathered)) := by
  have hlimit : ∀ settings' : Settings,
      (Session.start (σ := StateName) settings.plain strict text gathered).context.input.length ≤
        (Session.start (σ := StateName) settings.plain strict text gathered).context.location +
          positionLimit settings' text := by
    intro settings'
    exact Nat.le_trans (length_le_positionLimit settings' text) (Nat.le_add_left _ _)
  exact readFrom_sheltered hL (F := ⟨settings.plain, strict, Line.ofText text⟩)
    (H := ⟨settings, strict, Line.ofText text⟩) rfl rfl rfl rfl rfl
    (hlimit settings.plain) (hlimit settings) hsheltered

/-- No run leaves the line otherwise than it was typed. -/
theorem line_of_sheltered :
    (after (readFrom grammar L b (positionLimit settings text))
      (Session.start settings strict text gathered)).context.line = Line.ofText text := by
  have hrun := readFrom_plain hL hsheltered
  cases hplain : readFrom grammar L b (positionLimit settings.plain text)
      (Session.start settings.plain strict text gathered) with
  | ok a t =>
    rw [hplain] at hrun
    rw [after_of_ok hrun]
    rfl
  | error fault t =>
    rw [hplain] at hrun
    rw [after_of_error hrun]
    rfl

theorem readText_sheltered :
    grammar.readText settings strict L b text gathered =
      grammar.readText settings.plain strict L b text gathered := by
  have hrun := readFrom_plain hL hsheltered
  unfold Graph.readText
  cases hplain : readFrom grammar L b (positionLimit settings.plain text)
      (Session.start settings.plain strict text gathered) with
  | error fault t =>
    rw [hplain] at hrun
    rw [hrun]
    rfl
  | ok a t =>
    rw [hplain] at hrun
    have hmoves := Follows.readFrom (G := grammar) (L := L) b (positionLimit settings.plain text)
      (Session.start settings.plain strict text gathered)
    rw [after_of_ok hplain] at hmoves
    have hline : t.context.line = Line.ofText text := hmoves.line_of_plain rfl
    rw [hrun]
    show (t.gathered, Except.ok (Result.mk (Line.ofText text) _ _)) =
      (t.gathered, Except.ok (Result.mk t.context.line _ _))
    rw [hline]
    rfl

omit hsheltered in
theorem read_sheltered {line : Option Text}
    (hsheltered : Sheltered L settings strict b (line.getD []) gathered) :
    grammar.read settings strict L b line gathered =
      grammar.read settings.plain strict L b line gathered := by
  unfold Graph.read
  dsimp only
  rw [readText_sheltered hL hsheltered]

end

/-- Quoted-off text is out of reach of substitution.  If without substitution each `$` of a line is
met where expressions are off, then under all properties, variables and environments, and whether
or not expressions are resolved, the same events are reported and the line ends alike; nothing is
replaced on it, however it ends. -/
theorem sheltered_text_unreached {η : Type} (handler : Handler η) (settings : Settings)
    (strict : Bool) (entrance : Entrance) (line : Option Text) (reader : Reader) (gathered : η)
    (hsheltered : Sheltered (Reader.listener handler) settings strict entrance.state
      (line.getD []) (reader, gathered)) :
    readWith settings strict handler entrance.state line reader gathered =
        readWith settings.plain strict handler entrance.state line reader gathered ∧
      (after (readFrom grammar (Reader.listener handler) entrance.state
          (positionLimit settings (line.getD [])))
        (Session.start settings strict (line.getD []) (reader, gathered))).context.line =
          Line.ofText (line.getD []) ∧
      ∀ {r : Result}, (grammar.read settings strict (Reader.listener handler) entrance.state line
          (reader, gathered)).2 = .ok r → r.line = Line.ofText (line.getD []) := by
  have hL := Reader.isLocal_listener handler
  have hline := line_of_sheltered hL hsheltered
  refine ⟨?_, hline, ?_⟩
  · unfold readWith
    rw [read_sheltered hL hsheltered]
  · intro r hr
    unfold Graph.read Graph.readText at hr
    dsimp only at hr
    split at hr
    · cases hr
      rfl
    · cases hrun : readFrom grammar (Reader.listener handler) entrance.state
          (positionLimit settings (line.getD []))
          (Session.start settings strict (line.getD []) (reader, gathered)) with
      | error fault t =>
        rw [hrun] at hr
        cases hr
      | ok a t =>
        rw [hrun] at hr
        rw [after_of_ok hrun] at hline
        cases hr
        exact hline

/-- Neither the `$` in back quotes nor the one after the escape is a variable. -/
theorem sheltered_text_unreached_of_back_quotes :
    Sheltered (Reader.listener Handler.collecting) (.ofVariable ['x'] ['b']) true .argumentList
        ['`', '$', 'x', '`', ' ', '\\', '$', 'x'] ({}, []) ∧
      readWith (.ofVariable ['x'] ['b']) true Handler.collecting .argumentList
          (some ['`', '$', 'x', '`', ' ', '\\', '$', 'x']) {} [] =
        readWith (Settings.ofVariable ['x'] ['b']).plain true Handler.collecting .argumentList
          (some ['`', '$', 'x', '`', ' ', '\\', '$', 'x']) {} [] := by
  have hsheltered : Sheltered (Reader.listener Handler.collecting) (.ofVariable ['x'] ['b']) true
      .argumentList ['`', '$', 'x', '`', ' ', '\\', '$', 'x'] ({}, []) := by decide +kernel
  exact ⟨hsheltered, (sheltered_text_unreached Handler.collecting (.ofVariable ['x'] ['b']) true
    .arguments (some ['`', '$', 'x', '`', ' ', '\\', '$', 'x']) {} [] hsheltered).1⟩

end CommandLine
