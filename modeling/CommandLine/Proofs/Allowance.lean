/-
# `CommandLine.Proofs.Allowance` — what a line comes to does not depend on the allowance

A run is given up when it has read as many characters as it may, and how many these are depends on
the allowance of its settings.  Nothing else does: a line that is not given up has the same outcome
with every larger allowance, and the same is gathered from it (`readLine_allowing`).

The two runs stand on footings that differ in the allowance only, so what does not ask how far a
run may go is the same for both of them (`paired_of_tandem`).  Their bond is that one session is
the other one on its own footing, and that a run which is given up is excused from going on.
-/
import CommandLine.Command.Read
import CommandLine.Proofs.Lockstep

namespace CommandLine

open Machine Text

section

variable {σ τ α : Type} {allowance : Nat}

/-- The footing with another allowance. -/
def Footing.allowing (allowance : Nat) (f : Footing) : Footing :=
  { f with settings := { f.settings with allowance := allowance } }

/-- No action asks for the allowance. -/
theorem concord_allowing (G : Graph σ) :
    Concord G (.allowing allowance) (fun _ _ => True) fun _ => True where
  strict _ h := h
  alike _ := rfl
  looks _ _ := rfl
  closed _ _ := trivial
  dispatched _ _ _ := trivial

/-- The second session is the first one with another allowance; a run that is given up is
excused. -/
def Bond.allowing (allowance : Nat) : Bond σ τ τ where
  joins s t := t = s.via (.allowing allowance)
  fails e s f t := f = e ∧ t = s.via (.allowing allowance)
  excuses e := e = .endless

theorem paired_of_tandem {G : Graph σ} {L : Listener σ τ} {p : Machine σ τ α}
    (h : Tandem G L (.allowing allowance) (fun _ _ => True) p) (s : Session σ τ) :
    Paired (.allowing allowance) p s p (s.via (.allowing allowance)) := by
  have hsame : p (s.via (.allowing allowance)) = carry (.allowing allowance) (p s) :=
    h.same_of_strict (fun _ _ => rfl) trivial
  cases hp : p s with
  | ok a t =>
    rw [hp] at hsame
    exact .of_ok hp hsame rfl
  | error fault t =>
    rw [hp] at hsame
    exact .of_error hp hsame ⟨rfl, rfl⟩

/-- What is replaced does not depend on the allowance. -/
theorem Context.resolve_allowing (c : Context σ) :
    (c.onto (c.footing.allowing allowance)).resolve =
      (c.resolve.1.onto (c.resolve.1.footing.allowing allowance), c.resolve.2) :=
  resolveRounds_map (f := fun c => c.onto (c.footing.allowing allowance)) (fun _ => rfl)
    (fun _ _ _ => rfl) c.input.length c

theorem prepare_allowing (s : Session σ τ) :
    Paired (.allowing allowance) prepare s prepare (s.via (.allowing allowance)) := by
  have hresolve : (s.via (.allowing allowance)).context.resolve =
      (s.context.resolve.1.onto (s.context.resolve.1.footing.allowing allowance),
        s.context.resolve.2) := s.context.resolve_allowing
  have hsession : { s.via (.allowing allowance) with
        context := (s.via (.allowing allowance)).context.resolve.1 } =
      Session.via (.allowing allowance) { s with context := s.context.resolve.1 } := by
    rw [hresolve]
    rfl
  refine .prepare rfl ?_ rfl hsession fun _ => ⟨rfl, hsession⟩
  rw [hresolve]

/-- Nothing that is done to a session depends on the allowance. -/
theorem holds_allowing (G : Graph σ) {L : Listener σ τ} (hL : L.IsLocal) :
    (Bond.allowing allowance).Holds G L L fun _ => True where
  active := by
    rintro s _ rfl
    rfl
  character? := by
    rintro s _ rfl
    rfl
  escapes := by
    rintro s _ rfl
    rfl
  looks := by
    rintro s _ following preceding rfl
    rfl
  limits := by
    rintro s _ rfl
    exact .inl rfl
  throws := by
    rintro s _ e - rfl
    exact ⟨rfl, rfl⟩
  places := by
    rintro s _ rfl
    rfl
  tells := by
    rintro s _ signal rfl
    exact paired_of_tandem (.tell (concord_allowing G) hL signal) s
  opens := by
    rintro s _ x rfl
    exact paired_of_tandem (.opening (L := L) x) s
  closes := by
    rintro s _ rfl
    exact paired_of_tandem (.closing (G := G) (L := L)) s
  complains := by
    rintro s _ delimiter rfl
    exact paired_of_tandem (.notFinished (L := L) (concord_allowing G) delimiter) s
  configures := by
    rintro s _ escapes expressions - rfl
    exact paired_of_tandem (.configure (G := G) (L := L) escapes expressions) s
  prepares := by
    rintro s _ rfl
    exact prepare_allowing s
  advances := by
    rintro s _ rfl
    exact paired_of_tandem (.advance (G := G) (L := L) (fun _ _ => rfl) fun _ => trivial) s

end

/-! ## Lines -/

section

variable {settings : Settings} {strict : Bool} {line : Option Text} {allowance : Nat}

/-- A line that is not given up is read alike with a larger allowance, in any graph and for any
local listener. -/
theorem Graph.read_allowing {σ τ : Type} (G : Graph σ) {L : Listener σ τ} (hL : L.IsLocal)
    (hlarger : settings.allowance ≤ allowance) (initial : σ) (gathered : τ)
    (hends : (G.read settings strict L initial line gathered).2 ≠ .error .endless) :
    G.read { settings with allowance := allowance } strict L initial line gathered =
      G.read settings strict L initial line gathered := by
  unfold read at hends ⊢
  dsimp only at hends ⊢
  split
  · rfl
  · next hsolid =>
    rw [if_neg hsolid] at hends
    have hpositions : positionLimit settings (line.getD []) ≤
        positionLimit { settings with allowance := allowance } (line.getD []) :=
      Nat.add_le_add_left hlarger _
    have hjoins : (Bond.allowing allowance : Bond σ τ τ).joins
        (Session.start settings strict (line.getD []) gathered)
        (Session.start { settings with allowance := allowance } strict (line.getD []) gathered) :=
      rfl
    have hpaired := (holds_allowing G hL).readFrom (.all G) initial
      (.inr ⟨hpositions, rfl⟩) hjoins
    unfold readText at hends ⊢
    unfold Paired at hpaired
    split at hpaired
    · next hrun hrun' =>
      obtain ⟨-, rfl⟩ := hpaired
      rw [hrun, hrun']
      rfl
    · next e s f t hrun hrun' =>
      rw [hrun] at hends ⊢
      rw [hrun']
      rcases hpaired with rfl | ⟨rfl, rfl⟩
      · exact absurd rfl hends
      · rfl
    · next e s a t hrun hrun' =>
      rw [hrun] at hends
      obtain rfl := hpaired
      exact absurd rfl hends
    · exact hpaired.elim

/-- A line that is not given up has the same outcome with a larger allowance, and the handler has
gathered the same. -/
theorem readLine_allowing {η : Type} {handler : Handler η} {entrance : Entrance} {gathered : η}
    (hlarger : settings.allowance ≤ allowance)
    (hends : (readLine settings strict handler entrance line gathered).2 ≠ .error .endless) :
    readLine { settings with allowance := allowance } strict handler entrance line gathered =
      readLine settings strict handler entrance line gathered := by
  have hread : (grammar.read settings strict (Reader.listener handler) entrance.state line
      ({}, gathered)).2 ≠ .error .endless := by
    intro hendless
    refine hends ?_
    unfold readLine readWith
    rcases hheard : grammar.read settings strict (Reader.listener handler) entrance.state line
      ({}, gathered) with ⟨heard, fault | result⟩
    · rw [hheard] at hendless
      exact hendless
    · rw [hheard] at hendless
      cases hendless
  unfold readLine readWith
  rw [grammar.read_allowing (Reader.isLocal_listener handler) hlarger _ _ hread]

/-- A command that is not given up is the same with a larger allowance. -/
theorem Command.read_allowing {entrance : Entrance} {base : List Node}
    (hlarger : settings.allowance ≤ allowance)
    (hends : Command.read settings strict entrance base line ≠ .error .endless) :
    Command.read { settings with allowance := allowance } strict entrance base line =
      Command.read settings strict entrance base line := by
  have hline : (readLine settings strict handler entrance line (relativeTo base)).2 ≠
      .error .endless := by
    intro hendless
    refine hends ?_
    unfold Command.read
    split
    · next heq =>
      rw [heq] at hendless
      exact congrArg Except.error (Except.error.inj hendless)
    · next heq =>
      rw [heq] at hendless
      cases hendless
  unfold Command.read
  rw [readLine_allowing hlarger hline]

end
end CommandLine
