/-
# `CommandLine.Proofs.Strictness` — strict and lenient reading

A strict and a lenient run of the same line do the same up to the first error of the line.  There
the strict run ends; the lenient one remembers the error, or leaves a name as it stands, and goes
on.  `Footing.lenient` is the footing of the second run, and both runs are in tandem.

What follows for their outcomes is `Simulated`:

    strict run         lenient run
    records            the same and perhaps more
    returns            returns the same, with no error
    ends with e        remembers e first, where nothing is substituted
    ends with e        goes on, where e is about an open value or an unresolved name
-/
import CommandLine.Proofs.Safety
import CommandLine.Proofs.Tandem

namespace CommandLine

/-- On the footing errors end the run, wherever the cursor is. -/
def Footing.IsStrict (f : Footing) (_location : Nat) : Prop := f.strict = true

namespace Machine

variable {σ τ : Type} {G : Graph σ} {L : Listener σ τ}

/-- A line is the same whether it is read strictly or leniently, so any action may be performed. -/
theorem concord_lenient : Concord G Footing.lenient Footing.IsStrict fun _ => True where
  strict hc _ := hc
  alike _ := rfl
  looks _ _ := rfl
  closed _ _ := trivial
  dispatched _ _ _ := trivial

namespace Tandem

theorem lenient_resolve : Tandem G L Footing.lenient Footing.IsStrict resolve := by
  have stays : ∀ s : Session σ τ, s.context.strict = true →
      (after resolve s).context.strict = true := fun s hs =>
    (Follows.resolve (G := G) (L := L) s).strict_eq.trans hs
  refine ⟨stays, fun s hs => ?_⟩
  have hlenient := resolve_apply (s.via Footing.lenient)
  rw [show (s.via Footing.lenient).context = s.context.ease from rfl, Context.resolve_ease hs]
    at hlenient
  have hstrict := resolve_apply s
  match he : s.context.resolve.2 with
  | none | some (.breach _) | some (.defect _) | some .endless =>
    -- both runs go on or fail alike
    rw [he] at hstrict hlenient
    exact .inl (by rw [hlenient, hstrict]; rfl)
  | some (.format e) =>
    rw [he] at hstrict hlenient
    have hu := stays s hs
    rw [after_of_error hstrict] at hu
    refine .inr ⟨e, _, hstrict, hu, rfl, .inr ⟨?_, ?_⟩⟩
    · have hsettings := (Follows.resolve (G := G) (L := L) s).settings_eq
      rw [after_of_error hstrict] at hsettings
      rw [hsettings]
      cases hplain : s.context.settings.substitutes with
      | true => rfl
      | false =>
        rw [Context.resolve_of_plain hplain] at he
        cases he
    · rw [after_of_ok hlenient]
      rfl

theorem lenient_prepare : Tandem G L Footing.lenient Footing.IsStrict prepare := by
  refine read (fun c _ => ?_) fun c _ => rfl
  split
  · exact lenient_resolve
  · exact .pure _

variable (hL : L.IsLocal)
include hL

theorem lenient_handle : Tandem G L Footing.lenient Footing.IsStrict (Machine.handle G L) :=
  handle concord_lenient hL (fun _ _ => rfl) (fun h => h) trivial

theorem lenient_step : Tandem G L Footing.lenient Footing.IsStrict (step G L) := by
  have followRest : Follows G L (do
      if (← context).atEnd then Pure.pure () else Machine.handle G L) := by
    refine .read fun d => ?_
    split
    · exact .pure _
    · exact .handle
  rw [step_eq]
  refine lenient_prepare.bind (fun _ => followRest) fun _ => read (fun d _ => ?_) fun d _ => rfl
  split
  · exact .pure _
  · exact lenient_handle hL

theorem lenient_walk (limit : Nat) :
    Tandem G L Footing.lenient Footing.IsStrict (walk G L limit) := by
  induction limit with
  | zero =>
    refine read (fun c _ => ?_) fun c _ => rfl
    split
    · exact .pure _
    · exact .throw _
  | succ limit ih =>
    refine read (fun c _ => ?_) fun c _ => rfl
    split
    · exact .pure _
    · exact (lenient_step hL).bind (fun _ => .walk limit) fun _ => ih

/-- Strict and lenient reading are in tandem, whatever the graph. -/
theorem lenient_readFrom (initial : σ) (limit : Nat) :
    Tandem G L Footing.lenient Footing.IsStrict (readFrom G L initial limit) := by
  have ending : Tandem G L Footing.lenient Footing.IsStrict (Machine.finish G L) :=
    finish concord_lenient hL (fun _ => trivial) (fun _ => trivial) (fun _ => trivial)
      fun _ _ => rfl
  refine (enter concord_lenient hL trivial).bind
    (fun _ => (Follows.walk limit).bind fun _ => .finish) fun _ => ?_
  exact (lenient_walk hL limit).bind (fun _ => .finish) fun _ => ending

end Tandem
end Machine

/-! ## Two outcomes -/

/-- The outcomes of a strict and of a lenient run of one line; `log` is what has been recorded. -/
structure Simulated {τ ε : Type} (settings : Settings) (log : τ → List ε)
    (strict lenient : τ × Except Fault Result) : Prop where
  /-- What the strict run has recorded the lenient one has recorded first. -/
  recorded : log strict.1 <+: log lenient.1
  /-- A strict run that returns is repeated by the lenient one. -/
  returned : ∀ {r : Result}, strict.2 = .ok r → lenient = strict ∧ r.error = none
  /-- An error that is remembered ends the strict run. -/
  raised : settings.substitutes = false → ∀ {r : Result} {e : FormatError},
    lenient.2 = .ok r → r.error = some e → strict.2 = .error (.format e)
  /-- A lenient run that remembers no error is repeated by the strict one. -/
  undisturbed : settings.substitutes = false → ∀ {r : Result},
    lenient.2 = .ok r → r.error = none → strict.2 = .ok r
  /-- No error that can be passed over ends the lenient run. -/
  tolerant : ∀ {e : FormatError}, lenient.2 = .error (.format e) → e.isTolerable = false

/-- What a lenient run may end with it could not pass over. -/
theorem Allows.tolerant {α : Type} {settings : Settings} {outcome : Except Fault α}
    {text : Text} (h : Allows (settings.Permits false text) outcome) {e : FormatError}
    (he : outcome = .error (.format e)) : e.isTolerable = false := by
  subst he
  cases h with
  | line hline =>
    cases hline with
    | format real grave => exact grave rfl
  | room => rfl

namespace Graph

open Machine Text

variable {σ τ ε : Type} {G : Graph σ} {L : Listener σ τ} {log : τ → List ε}

/-- Both runs return the same. -/
theorem simulated_of_same {settings : Settings} {outcome : τ × Except Fault Result}
    (hnone : ∀ {r : Result}, outcome.2 = .ok r → r.error = none)
    (htolerant : ∀ {e : FormatError}, outcome.2 = .error (.format e) → e.isTolerable = false) :
    Simulated settings log outcome outcome where
  recorded := List.prefix_refl _
  returned hr := ⟨rfl, hnone hr⟩
  raised _ _ _ hr he := nomatch (hnone hr).symm.trans he
  undisturbed _ _ hr _ := hr
  tolerant := htolerant

/-- The strict run ends with an error that the lenient one has passed over. -/
theorem simulated_of_error {settings : Settings} {strict lenient : τ × Except Fault Result}
    {e : FormatError} (hstrict : strict.2 = .error (.format e))
    (hrecorded : log strict.1 <+: log lenient.1)
    (hremembered : settings.substitutes = false →
      ∀ {r : Result}, lenient.2 = .ok r → r.error = some e)
    (htolerant : ∀ {e : FormatError}, lenient.2 = .error (.format e) → e.isTolerable = false) :
    Simulated settings log strict lenient where
  recorded := hrecorded
  returned hr := nomatch hstrict.symm.trans hr
  raised hplain _ _ hr hre := by
    cases (hremembered hplain hr).symm.trans hre
    exact hstrict
  undisturbed hplain _ hr hre := nomatch (hremembered hplain hr).symm.trans hre
  tolerant := htolerant

theorem readText_simulated (hL : L.IsLocal) (hlog : L.Logs log) (settings : Settings)
    (initial : σ) (text : Text) (gathered : τ)
    (htolerant : ∀ {e : FormatError},
      (G.readText settings false L initial text gathered).2 = .error (.format e) →
        e.isTolerable = false) :
    Simulated settings log (G.readText settings true L initial text gathered)
      (G.readText settings false L initial text gathered) := by
  revert htolerant
  unfold readText
  rw [show Session.start settings false text gathered =
    (Session.start settings true text gathered).via Footing.lenient from rfl]
  have hstart : (Session.start (σ := σ) settings true text gathered).context.error = none := rfl
  generalize hs : Session.start (σ := σ) settings true text gathered = s at *
  have hstrict : s.context.strict = true := by rw [← hs]; rfl
  have hsettings : s.context.settings = settings := by rw [← hs]; rfl
  generalize hp : readFrom G L initial (positionLimit settings text) = p
  have htandem : Tandem G L Footing.lenient Footing.IsStrict p :=
    hp ▸ .lenient_readFrom hL initial _
  have hmoves : Moves G L s (after p s) := hp ▸ Follows.readFrom initial _ s
  intro htolerant
  rcases htandem.same s hstrict with heq | hparted
  · -- the runs do the same to the end
    rw [heq] at htolerant ⊢
    cases h : p s with
    | ok a t =>
      rw [after_of_ok h] at hmoves
      refine simulated_of_same (fun hr => ?_) nofun
      cases hr
      exact (hmoves.error_of_strict hstrict).trans hstart
    | error fault t =>
      rw [h] at htolerant
      exact simulated_of_same nofun htolerant
  · have hlogged := hparted.log_prefix hlog
    obtain ⟨e, u, he, hremembered⟩ := hparted.remembered
    rw [after_of_error he] at hmoves hlogged
    replace hremembered := hremembered ((hmoves.error_of_strict hstrict).trans hstart)
    rw [hmoves.settings_eq, hsettings] at hremembered
    rw [he]
    cases h : p (s.via Footing.lenient) with
    | ok a t =>
      rw [after_of_ok h] at hlogged hremembered
      refine simulated_of_error rfl hlogged (fun hplain r hr => ?_) nofun
      cases hr
      exact hremembered hplain
    | error fault t =>
      rw [after_of_error h] at hlogged
      rw [h] at htolerant
      exact simulated_of_error rfl hlogged (fun _ _ => nofun) htolerant

/-- Strict and lenient reading of a line, for any graph and any listener that reads the line at
the cursor only. -/
theorem read_simulated (hL : L.IsLocal) (hlog : L.Logs log) (settings : Settings)
    (initial : σ) (line : Option Text) (gathered : τ)
    (htolerant : ∀ {e : FormatError},
      (G.read settings false L initial line gathered).2 = .error (.format e) →
        e.isTolerable = false) :
    Simulated settings log (G.read settings true L initial line gathered)
      (G.read settings false L initial line gathered) := by
  unfold read at htolerant ⊢
  by_cases h : isBlankText (line.getD [])
  · simp only [if_pos h]
    refine simulated_of_same (fun hr => ?_) nofun
    cases hr
    rfl
  · simp only [if_neg h] at htolerant ⊢
    exact readText_simulated hL hlog settings initial _ gathered htolerant

end Graph

/-! ## The grammars -/

namespace Listener

variable {σ τ : Type}

theorem logs_recording (L : Listener σ τ) : (recording L).Logs fun gathered => gathered.1.toList := by
  intro signal c gathered
  show gathered.1.toList <+: (gathered.1.push _).toList
  rw [Array.toList_push]
  exact List.prefix_append _ _

theorem logs_collecting : (Reader.listener Handler.collecting).Logs Prod.snd := by
  intro signal c gathered
  show gathered.2 <+: _
  simp only [Reader.listener, Reader.deliver_collecting]
  cases (gathered.1.hear signal c).2 <;> exact List.prefix_append _ _

end Listener

theorem Reader.steady_collecting (entrance : Entrance) :
    (Reader.listener Handler.collecting).SteadyIn entrance.state fun _ _ => True := fun _ =>
  Reader.steady_listener Handler.isFair_collecting entrance.not_readsItems

/-- The events of a line are those of its run, and at the end that the line has been read. -/
theorem Event.ofLine_eq (settings : Settings) (strict : Bool) (entrance : Entrance)
    (line : Option Text) :
    Event.ofLine settings strict entrance line =
      match grammar.read settings strict (Reader.listener Handler.collecting) entrance.state line
          ({}, []) with
      | ((_, events), .error fault) => (events, .error fault)
      | ((_, events), .ok result) => (events ++ [.parsed result], .ok result) := by
  unfold Event.ofLine readLine readWith
  rcases grammar.read settings strict (Reader.listener Handler.collecting) entrance.state line
    ({}, []) with ⟨⟨reader, events⟩, fault | result⟩ <;> rfl

/-- The events of the two runs of a line. -/
theorem Event.ofLine_simulated (settings : Settings) (entrance : Entrance) (line : Option Text) :
    Simulated settings id (Event.ofLine settings true entrance line)
      (Event.ofLine settings false entrance line) := by
  have h := Graph.read_simulated (G := grammar) (Reader.isLocal_listener _)
    Listener.logs_collecting settings entrance.state line ({}, [])
    (allows_read (Reader.steady_collecting entrance) entrance.isRoot_state settings false
      ({}, []) trivial line).tolerant
  rw [Event.ofLine_eq, Event.ofLine_eq]
  revert h
  generalize grammar.read settings true (Reader.listener Handler.collecting) entrance.state line
    ({}, []) = strict
  generalize grammar.read settings false (Reader.listener Handler.collecting) entrance.state line
    ({}, []) = lenient
  intro h
  obtain ⟨⟨reader, events⟩, outcome⟩ := strict
  cases outcome with
  | ok result =>
    obtain ⟨rfl, hnone⟩ := h.returned rfl
    refine Graph.simulated_of_same (fun hr => ?_) nofun
    cases hr
    exact hnone
  | error fault =>
    obtain ⟨⟨reader', events'⟩, outcome'⟩ := lenient
    cases outcome' with
    | error fault' =>
      exact ⟨h.recorded, nofun, fun _ _ _ => nofun, fun _ _ => nofun, fun he => h.tolerant he⟩
    | ok result' =>
      refine ⟨h.recorded.trans (List.prefix_append _ _), nofun, fun hplain r e hr hre => ?_,
        fun hplain r hr hre => ?_, nofun⟩
      · cases hr
        exact h.raised hplain rfl hre
      · cases hr
        exact nomatch h.undisturbed hplain rfl hre

open Listener in
/-- Strict and lenient reading simulate each other, for every line, all settings and every grammar:
in the events of a command line, in the trace of its run and in the trace of the run over a
structured value. -/
theorem strict_simulates_lenient (settings : Settings) (line : Option Text) :
    (∀ entrance : Entrance,
      Simulated settings id (Event.ofLine settings true entrance line)
        (Event.ofLine settings false entrance line) ∧
      Simulated settings (fun gathered => gathered.1.toList)
        (grammar.read settings true (recording (Reader.listener Handler.collecting))
          entrance.state line (#[], {}, []))
        (grammar.read settings false (recording (Reader.listener Handler.collecting))
          entrance.state line (#[], {}, []))) ∧
    Simulated settings (fun gathered => gathered.1.toList)
      (grammar.read settings true (recording Value.Builder.listener) .value line (#[], {}))
      (grammar.read settings false (recording Value.Builder.listener) .value line (#[], {})) := by
  refine ⟨fun entrance => ⟨Event.ofLine_simulated settings entrance line, ?_⟩, ?_⟩
  · refine Graph.read_simulated (isLocal_recording (Reader.isLocal_listener _))
      (logs_recording _) settings entrance.state line _ ?_
    exact (allows_read (Reader.steady_collecting entrance).recording entrance.isRoot_state settings
      false (#[], {}, []) ⟨rfl, trivial⟩ line).tolerant
  · refine Graph.read_simulated (isLocal_recording Value.Builder.isLocal_listener)
      (logs_recording _) settings .value line _ ?_
    exact (allows_read Value.Builder.steady_builder.recording rfl settings false
      (#[], {}) ⟨rfl, rfl⟩ line).tolerant

end CommandLine
