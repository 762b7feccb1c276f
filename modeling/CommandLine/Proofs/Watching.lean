/-
# `CommandLine.Proofs.Watching` — a run that is watched goes as it goes unwatched

A listener *shadows* another one if it answers alike while it gathers less: a part `π g` of what
the other one gathers as `g`.  Two runs with such listeners do the same to their contexts, and what
the first one has gathered in the end is that part of what the second one has (`Shadowed`).

`Listener.watching` keeps every context that a listener is shown beside what that listener gathers.
As the listener shadows it, what is found out about a watched run, such as which contexts come up,
holds of the run without the watcher (`Graph.read_watching`).

A listener that may end the run on its own *follows* another one if it answers alike unless it
refuses.  Where it has refused nothing in a whole line, both runs go through alike, and what they
have gathered stays related (`Graph.read_follows`).
-/
import CommandLine.Proofs.Lockstep

namespace CommandLine

section

variable {σ τ υ α β : Type}

/-- `M` answers as `L` does and gathers the part `π` of it. -/
structure Listener.Shadows (M : Listener σ υ) (π : τ → υ) (L : Listener σ τ) : Prop where
  hear : ∀ signal c gathered, M.hear signal c (π gathered) =
    { gathered := π (L.hear signal c gathered).gathered
      verdict := (L.hear signal c gathered).verdict }
  place : ∀ gathered, M.place (π gathered) = L.place gathered

/-- The session with a part of what has been gathered. -/
def Session.part (π : τ → υ) (s : Session σ τ) : Session σ υ :=
  { context := s.context, gathered := π s.gathered }

@[simp] theorem Session.context_part (π : τ → υ) (s : Session σ τ) :
    (s.part π).context = s.context := rfl

@[simp] theorem Session.gathered_part (π : τ → υ) (s : Session σ τ) :
    (s.part π).gathered = π s.gathered := rfl

namespace Machine

/-- The same ending with a part of what has been gathered. -/
def endsIn (π : τ → υ) :
    EStateM.Result Fault (Session σ τ) α → EStateM.Result Fault (Session σ υ) α
  | .ok a s => .ok a (s.part π)
  | .error fault s => .error fault (s.part π)

/-- The program `q` does to a part of a session what `p` does to the session. -/
def Shadowed (π : τ → υ) (q : Machine σ υ α) (p : Machine σ τ α) : Prop :=
  ∀ s, q (s.part π) = endsIn π (p s)

end Machine

/-- The second session is a part of the first one. -/
def Bond.part (π : τ → υ) : Bond σ τ υ where
  joins s t := t = s.part π
  fails e s f t := f = e ∧ t = s.part π

namespace Machine

variable {π : τ → υ}

theorem Shadowed.of_paired {q : Machine σ υ α} {p : Machine σ τ α}
    (h : ∀ s, Paired (.part π) p s q (s.part π)) : Shadowed π q p := by
  intro s
  have hs := h s
  unfold Paired at hs
  split at hs
  · next hp hq =>
    obtain ⟨rfl, rfl⟩ := hs
    rw [hp, hq]
    rfl
  · next hp hq =>
    obtain ⟨rfl, rfl⟩ := hs.resolve_left id
    rw [hp, hq]
    rfl
  · exact hs.elim
  · exact hs.elim

theorem complain_part (e : FormatError) (s : Session σ τ) :
    Paired (.part π) (complain e) s (complain e) (s.part π) :=
  .complain rfl ⟨rfl, rfl⟩ rfl

/-- A listener and its shadow are told the same. -/
theorem holds_part (G : Graph σ) {M : Listener σ υ} {L : Listener σ τ}
    (shadows : M.Shadows π L) : (Bond.part π).Holds G L M fun _ => True where
  active := by
    rintro s _ rfl
    rfl
  character? := by
    rintro s _ rfl
    rfl
  escapes := by
    rintro s _ rfl
    rfl
  looks := by
    rintro s _ following preceding rfl
    rfl
  limits := by
    rintro s _ rfl
    exact .inl rfl
  throws := by
    rintro s _ e - rfl
    exact ⟨rfl, rfl⟩
  places := by
    rintro s _ rfl
    exact (shadows.place s.gathered).symm
  tells := by
    rintro s _ signal rfl
    have hhear : M.hear signal (s.part π).context (s.part π).gathered = _ :=
      shadows.hear signal s.context s.gathered
    have hheard : heard M signal (s.part π) = (heard L signal s).part π := by
      unfold heard
      rw [hhear]
      rfl
    refine .tell (congrArg Reply.verdict hhear) hheard (fun _ => ⟨rfl, hheard⟩) fun e => ?_
    rw [hheard]
    exact complain_part e _
  opens := by
    rintro s _ x rfl
    unfold Paired
    rw [opening_apply, opening_apply, Session.context_part]
    cases s.context.stack.push (s.context.frameFor x (G x)) with
    | ok stack => exact ⟨rfl, rfl⟩
    | error e => exact .inr ⟨rfl, rfl⟩
  closes := by
    rintro s _ rfl
    unfold Paired
    rw [closing_apply, closing_apply, Session.context_part]
    cases s.context.stack.pop with
    | ok popped => exact ⟨rfl, rfl⟩
    | error d => exact .inr ⟨rfl, rfl⟩
  complains := by
    rintro s _ delimiter rfl
    exact .notFinished rfl (fun e => complain_part e s) fun _ => ⟨rfl, rfl⟩
  configures := by
    rintro s _ escapes expressions - rfl
    exact .configure rfl rfl fun _ => ⟨rfl, rfl⟩
  prepares := by
    rintro s _ rfl
    exact .prepare rfl rfl rfl rfl fun _ => ⟨rfl, rfl⟩
  advances := by
    rintro s _ rfl
    exact .advance rfl rfl ⟨rfl, rfl⟩

/-- A run with a listener that shadows another one is a part of the run with that one. -/
theorem Shadowed.readFrom (G : Graph σ) {M : Listener σ υ} {L : Listener σ τ}
    (shadows : M.Shadows π L) (initial : σ) (limit : Nat) :
    Shadowed π (readFrom G M initial limit) (readFrom G L initial limit) :=
  .of_paired fun _ => (holds_part G shadows).readFrom (.all G) initial (.inl rfl) rfl

end Machine

/-! ## Watched runs -/

/-- The listener that keeps every context that another listener is shown, beside what that one
gathers. -/
def Listener.watching (L : Listener σ τ) : Listener σ (List (Context σ) × τ) where
  hear signal c gathered :=
    let reply := L.hear signal c gathered.2
    { gathered := (gathered.1 ++ [c], reply.gathered), verdict := reply.verdict }
  place gathered := L.place gathered.2

theorem Listener.shadows_watching (L : Listener σ τ) : L.Shadows Prod.snd L.watching where
  hear _ _ _ := rfl
  place _ := rfl

/-- Reading with a listener that shadows another one has the same outcome and gathers the part. -/
theorem Graph.read_shadowed (G : Graph σ) {M : Listener σ υ} {L : Listener σ τ} {π : τ → υ}
    (shadows : M.Shadows π L) (settings : Settings) (strict : Bool) (initial : σ)
    (line : Option Text) (gathered : τ) :
    G.read settings strict M initial line (π gathered) =
      (π (G.read settings strict L initial line gathered).1,
        (G.read settings strict L initial line gathered).2) := by
  unfold read
  dsimp only
  split
  · rfl
  · have h : Machine.readFrom G M initial (positionLimit settings (line.getD []))
        (.start settings strict (line.getD []) (π gathered)) =
          Machine.endsIn π (Machine.readFrom G L initial (positionLimit settings (line.getD []))
            (.start settings strict (line.getD []) gathered)) :=
      Machine.Shadowed.readFrom G shadows initial _ (.start settings strict (line.getD []) gathered)
    unfold readText
    rw [h]
    cases Machine.readFrom G L initial (positionLimit settings (line.getD []))
      (.start settings strict (line.getD []) gathered) <;> rfl

/-- The outcome of a watched run is that of the run. -/
theorem Graph.read_watching (G : Graph σ) (L : Listener σ τ) (settings : Settings) (strict : Bool)
    (initial : σ) (line : Option Text) (gathered : τ) :
    (G.read settings strict L.watching initial line ([], gathered)).2 =
      (G.read settings strict L initial line gathered).2 :=
  (congrArg Prod.snd
    (G.read_shadowed L.shadows_watching settings strict initial line ([], gathered))).symm

/-! ## Runs in which nothing is refused -/

/-- `M` answers as `L` does unless it refuses, and `R` relates what the two gather. -/
structure Listener.Follows (M : Listener σ υ) (R : υ → τ → Prop) (L : Listener σ τ) : Prop where
  hear : ∀ (signal : Signal σ) (c : Context σ) {h : υ} {g : τ}, R h g →
    (∃ fault, (M.hear signal c h).verdict = .refuse fault) ∨
      (L.hear signal c g).verdict = (M.hear signal c h).verdict ∧
        R (M.hear signal c h).gathered (L.hear signal c g).gathered
  place : ∀ {h : υ} {g : τ}, R h g → M.place h = L.place g

/-- The sessions are one but for what has been gathered; the first run may end at any time. -/
def Bond.related (R : υ → τ → Prop) : Bond σ υ τ where
  joins s t := s.context = t.context ∧ R s.gathered t.gathered
  fails _ _ _ _ := True
  excuses _ := True

namespace Machine

variable {R : υ → τ → Prop} {s : Session σ υ} {t : Session σ τ}

theorem complain_related (e : FormatError) (h : (Bond.related R).joins s t) :
    Paired (.related R) (complain e) s (complain e) t := by
  obtain ⟨hcontext, hgathered⟩ := h
  exact .complain (by rw [hcontext]) trivial ⟨by rw [hcontext], hgathered⟩

/-- A listener and the one that it follows are told the same. -/
theorem holds_related (G : Graph σ) {M : Listener σ υ} {L : Listener σ τ}
    (follows : M.Follows R L) : (Bond.related R).Holds G M L fun _ => True where
  active h := by rw [h.1]
  character? h := by rw [h.1]
  escapes h := by rw [h.1]
  looks _ _ h := by rw [h.1]
  limits h := .inl (by rw [h.1])
  throws _ _ _ := trivial
  places h := follows.place h.2
  tells {s t} signal h := by
    have hs := tell_apply M signal s
    rcases follows.hear signal s.context h.2 with ⟨fault, hrefused⟩ | ⟨hverdict, hgathered⟩
    · rw [hrefused] at hs
      exact .of_excused hs trivial _
    · rw [h.1] at hverdict hgathered
      have hheard : (Bond.related R).joins (heard M signal s) (heard L signal t) := by
        refine ⟨h.1, ?_⟩
        unfold heard
        rwa [h.1]
      exact .tell (by rwa [h.1]) hheard (fun _ => trivial) fun e => complain_related e hheard
  opens {s t} x h := by
    unfold Paired
    rw [opening_apply, opening_apply, h.1]
    cases t.context.stack.push (t.context.frameFor x (G x)) with
    | ok stack => exact ⟨rfl, rfl, h.2⟩
    | error e => exact .inl trivial
  closes {s t} h := by
    unfold Paired
    rw [closing_apply, closing_apply, h.1]
    cases t.context.stack.pop with
    | ok popped => exact ⟨rfl, rfl, h.2⟩
    | error d => exact .inl trivial
  complains _ h := .notFinished (by rw [h.1]) (fun e => complain_related e h) fun _ => trivial
  configures _ _ _ h := .configure (by rw [h.1]) ⟨by rw [h.1], h.2⟩ fun _ => trivial
  prepares h := .prepare (by rw [h.1]) (by rw [h.1]) h ⟨by rw [h.1], h.2⟩ fun _ => trivial
  advances h := .advance (by rw [h.1]) ⟨by rw [h.1], h.2⟩ trivial

end Machine

/-- If a listener has refused nothing, the one that it follows has read the same. -/
theorem Graph.read_follows (G : Graph σ) {M : Listener σ υ} {L : Listener σ τ}
    {R : υ → τ → Prop} (follows : M.Follows R L) {settings : Settings} {strict : Bool}
    {initial : σ} {line : Option Text} {h h' : υ} {g : τ} (hR : R h g) {r : Result}
    (hread : G.read settings strict M initial line h = (h', .ok r)) :
    ∃ g', G.read settings strict L initial line g = (g', .ok r) ∧ R h' g' := by
  unfold read at hread ⊢
  dsimp only at hread ⊢
  split at hread
  · next hblank =>
    cases hread
    exact ⟨g, if_pos hblank, hR⟩
  · next hblank =>
    rw [if_neg hblank]
    unfold readText at hread ⊢
    have hpaired := (Machine.holds_related G follows).readFrom (.all G) initial
      (.inl rfl : (Bond.related R).Allots (positionLimit settings (line.getD [])) _)
      (⟨rfl, hR⟩ : (Bond.related R).joins (.start settings strict (line.getD []) h)
        (.start settings strict (line.getD []) g))
    split at hread
    · next hrun =>
      cases hread
      obtain ⟨t, hgo, hcontext, hgathered⟩ := hpaired.exists_ok hrun
      rw [hgo, hcontext]
      exact ⟨t.gathered, rfl, hgathered⟩
    · cases hread

end
end CommandLine
