/-
# `CommandLine.Proofs.Unfinished` — which value a line of arguments leaves open

A line from which nothing is replaced is read as the scanner says: the delimiter that is found
missing is the innermost one that the scanner has open at the end (`unfinished_values_found`).
The run goes over the line with the scanner (`Machine.ends_readFrom_scanned`), whatever a quiet
listener gathers from it.
-/
import CommandLine.Proofs.ScannedLines

namespace CommandLine

open Text

/-- The outcome of reading a line on which a delimiter may be missing: a strict reading ends with
that error, a lenient one stores it, and if nothing is missing either one returns. -/
def Finds {α : Type} (strict : Bool) (missing : Option FormatError)
    (stored : α → Option FormatError) (outcome : Except Fault α) : Prop :=
  match strict, missing with
  | true, some e => outcome = .error (.format e)
  | _, _ => ∃ a, outcome = .ok a ∧ stored a = missing

/-- The complaint about the innermost part of a value that a line of arguments leaves open. -/
def unfinished (line : Option Text) : Option FormatError := (Scanner.after (line.getD [])).missing

/-- The states of a line of arguments never exceed the limit; a line of blanks takes none. -/
def Fits (limit : Int) (line : Option Text) : Prop :=
  isBlankText (line.getD []) = true ∨ Shallow limit (line.getD [])

section

variable {τ η : Type} {L : Listener StateName τ} {handler : Handler η} {settings : Settings}
  {strict : Bool} {line : Option Text}

/-- A line that is not replaced is read as the scanner says, unless it is too deep. -/
theorem Graph.read_scanned (quiet : L.Quiet)
    (hplain : Unsubstituted settings strict (line.getD [])) (gathered : τ) :
    let outcome := (grammar.read settings strict L .argumentList line gathered).2
    (Fits settings.maxDepth line → Finds strict (unfinished line) Result.error outcome) ∧
      (¬ Fits settings.maxDepth line →
        ∃ location, outcome = .error (.format (.nestingTooDeep settings.maxDepth location))) := by
  dsimp only
  unfold Graph.read
  dsimp only
  split
  · next hblank =>
    refine ⟨fun _ => ?_, fun hdeep => absurd (.inl hblank) hdeep⟩
    rw [unfinished, Scanner.missing_of_isBlankText hblank]
    cases strict <;> exact ⟨_, rfl, rfl⟩
  · next hblank =>
    have hrun := Machine.ends_readFrom_scanned (quiet.keepsPace _) hplain
      (length_le_positionLimit settings (line.getD [])) gathered trivial
    unfold Machine.Ends at hrun
    unfold readText
    split at hrun
    · next hread =>
      rw [hread]
      obtain ⟨hshallow, hstrict, herror, -⟩ := hrun
      refine ⟨fun _ => ?_, fun hdeep => absurd (.inr hshallow) hdeep⟩
      unfold Finds
      split
      · next hmissing => cases (hstrict rfl).symm.trans hmissing
      · exact ⟨_, rfl, herror⟩
    · next hread =>
      rw [hread]
      rcases hrun with ⟨hdeep, location, rfl⟩ | ⟨hshallow, rfl, e, hmissing, rfl⟩
      · exact ⟨fun hfits => absurd (hfits.resolve_left hblank) hdeep, fun _ => ⟨location, rfl⟩⟩
      · refine ⟨fun _ => ?_, fun hdeep => absurd (.inr hshallow) hdeep⟩
        rw [unfinished, hmissing]
        rfl

/-- A handler that accepts all but addresses and names leaves the outcome of such a line alone. -/
theorem readLine_of_acceptsRest (accepts : handler.AcceptsRest) (settings : Settings)
    (strict : Bool) (entrance : Entrance) (line : Option Text) (gathered : η) :
    (readLine settings strict handler entrance line gathered).2 =
      (grammar.read settings strict (Reader.listener handler) entrance.state line
        ({}, gathered)).2 := by
  unfold readLine readWith
  rcases grammar.read settings strict (Reader.listener handler) entrance.state line
    ({}, gathered) with ⟨⟨reader, gathered⟩, fault | result⟩
  · rfl
  · have hparsed := accepts (.parsed result) gathered rfl
    dsimp only
    cases hh : handler (.parsed result) gathered with
    | mk rest refusal =>
      rw [hh] at hparsed
      cases hparsed
      rfl

/-- The command stores the error that reading its line has passed over. -/
theorem Command.error_of_readLine {entrance : Entrance} {start c : Command} {result : Result}
    (h : readLine settings strict Command.handler entrance line start = (c, .ok result)) :
    c.error = result.error := by
  unfold readLine readWith at h
  rcases hread : grammar.read settings strict (Reader.listener Command.handler) entrance.state line
    ({}, start) with ⟨⟨reader, gathered⟩, fault | found⟩
  · rw [hread] at h
    cases h
  · rw [hread] at h
    cases h
    rfl

theorem Command.finds_read {missing : Option FormatError} {entrance : Entrance} {base : List Node}
    (h : Finds strict missing Result.error
      (readLine settings strict Command.handler entrance line (relativeTo base)).2) :
    Finds strict missing Command.error (read settings strict entrance base line) := by
  unfold read
  cases hread : readLine settings strict Command.handler entrance line (relativeTo base) with
  | mk c outcome =>
    rw [hread] at h
    unfold Finds at h ⊢
    split at h
    · cases h
      rfl
    · obtain ⟨result, rfl, herror⟩ := h
      exact ⟨c, rfl, (error_of_readLine hread).trans herror⟩

/-- A value that a line of arguments leaves open is found exactly, whatever the handler.  On a line
that is not replaced and not too deep, a strict reading ends with an error if the scanner ends with
an open delimiter; the error is about the innermost one, with its place and what closes it.  A
lenient reading returns and stores that error, and if nothing is open both return.  A line that is
too deep is found to be so. -/
theorem unfinished_values_found (settings : Settings) (strict : Bool) (line : Option Text)
    (hplain : Unsubstituted settings strict (line.getD [])) :
    (Fits settings.maxDepth line →
      (∀ base, Finds strict (unfinished line) Command.error
        (Command.read settings strict .arguments base line)) ∧
      ∀ {η : Type} (handler : Handler η) (gathered : η), handler.AcceptsRest →
        Finds strict (unfinished line) Result.error
          (readLine settings strict handler .arguments line gathered).2) ∧
    (¬ Fits settings.maxDepth line →
      ∀ {η : Type} (handler : Handler η) (gathered : η), handler.AcceptsRest →
        ∃ location, (readLine settings strict handler .arguments line gathered).2 =
          .error (.format (.nestingTooDeep settings.maxDepth location))) := by
  have hread {η : Type} (handler : Handler η) (gathered : η) (accepts : handler.AcceptsRest) :=
    Graph.read_scanned (Reader.quiet_listener accepts) hplain ({}, gathered)
  refine ⟨fun hfits => ⟨fun base => Command.finds_read ?_, fun handler gathered accepts => ?_⟩,
    fun hdeep η handler gathered accepts => ?_⟩
  · rw [readLine_of_acceptsRest Command.acceptsRest_handler]
    exact (hread _ _ Command.acceptsRest_handler).1 hfits
  · rw [readLine_of_acceptsRest accepts]
    exact (hread handler gathered accepts).1 hfits
  · rw [readLine_of_acceptsRest accepts]
    exact (hread handler gathered accepts).2 hdeep

theorem unfinished_values_found_in_quotes :
    Command.read {} true .arguments [] (some "-o=[x \"y\\\"] z".toList) =
        .error (.format (.valueNotFinished ['"'] 6)) ∧
      ∃ c, Command.read {} false .arguments [] (some "-o=[x \"y\\\"] z".toList) = .ok c ∧
        c.error = some (.valueNotFinished ['"'] 6) := by
  have hfits : Fits defaultMaxDepth (some "-o=[x \"y\\\"] z".toList) := by
    refine .inr fun before hbefore => ?_
    have hall : ∀ n ≤ 13, ((Scanner.after ("-o=[x \"y\\\"] z".toList.take n)).depth : Int) ≤
        defaultMaxDepth := by decide +kernel
    rw [List.prefix_iff_eq_take.1 hbefore]
    exact hall _ hbefore.length_le
  have hfinds (strict : Bool) := ((unfinished_values_found {} strict
    (some "-o=[x \"y\\\"] z".toList) (unsubstituted_of_plain rfl strict _)).1 hfits).1 []
  have hmissing : unfinished (some "-o=[x \"y\\\"] z".toList) =
      some (.valueNotFinished ['"'] 6) := by decide +kernel
  rw [hmissing] at hfinds
  exact ⟨hfinds true, hfinds false⟩

end
end CommandLine
