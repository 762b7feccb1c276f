/-
# `CommandLine.Text.Basic` — text as a list of characters

A line, a token and a value are lists of characters, so every offset, length and count in this
library counts characters and never bytes.  Besides the type the module holds the cuts at a
separator, the search for a part and the replacement of a stretch of text; the lemmas say what a
cut keeps and how long its parts are.
-/

namespace CommandLine

/-- Text is a list of characters. -/
abbrev Text := List Char

namespace Text

/-- The text before the first separator, and the text after it when there is one. -/
def cut (separator : Char) : Text → Text × Option Text
  | [] => ([], none)
  | c :: rest =>
    if c = separator then ([], some rest)
    else (c :: (cut separator rest).1, (cut separator rest).2)

/-- The pieces between the separators; a text without one is a single piece. -/
def pieces (separator : Char) : Text → List Text
  | [] => [[]]
  | c :: rest =>
    if c = separator then [] :: pieces separator rest
    else
      match pieces separator rest with
      | [] => [[c]]
      | piece :: others => (c :: piece) :: others

/-- Whether the part stands somewhere in the text without a gap. -/
def occursIn (part : Text) : Text → Bool
  | [] => part.isEmpty
  | c :: rest => part.isPrefixOf (c :: rest) || occursIn part rest

/-- The text with `length` characters from `start` on replaced. -/
def replaceAt (text : Text) (start length : Nat) (replacement : Text) : Text :=
  text.take start ++ replacement ++ text.drop (start + length)

/-- The text from `start` up to `stop`. -/
def slice (text : Text) (start stop : Nat) : Text :=
  (text.drop start).take (stop - start)

/-! ## What a cut keeps -/

theorem cut_of_some {separator : Char} {text after : Text}
    (h : (cut separator text).2 = some after) :
    text = (cut separator text).1 ++ separator :: after := by
  induction text with
  | nil => simp [cut] at h
  | cons c rest ih =>
    by_cases hc : c = separator
    · simp only [cut, if_pos hc, Option.some.injEq] at h ⊢
      simp [hc, h]
    · simp only [cut, if_neg hc] at h ⊢
      rw [List.cons_append, ← ih h]

/-- What follows a separator is shorter than the text. -/
theorem cut_length {separator : Char} {text after : Text}
    (h : (cut separator text).2 = some after) : after.length < text.length := by
  have := congrArg List.length (cut_of_some h)
  simp only [List.length_append, List.length_cons] at this
  omega

/-! ## What pieces keep -/

theorem pieces_ne_nil (separator : Char) (text : Text) : pieces separator text ≠ [] := by
  cases text with
  | nil => nofun
  | cons c rest =>
    rw [pieces]
    split
    · nofun
    · split <;> nofun

/-- The pieces before a separator and those after it. -/
theorem pieces_append (separator : Char) (text after : Text) :
    pieces separator (text ++ separator :: after) =
      pieces separator text ++ pieces separator after := by
  induction text with
  | nil =>
    rw [List.nil_append]
    exact if_pos rfl
  | cons c rest ih =>
    rw [List.cons_append, pieces, pieces, ih]
    split
    · rfl
    · cases hpieces : pieces separator rest with
      | nil => exact absurd hpieces (pieces_ne_nil separator rest)
      | cons piece others => rfl

/-- A text without a separator is a single piece. -/
theorem pieces_of_not_mem {separator : Char} {text : Text} (h : separator ∉ text) :
    pieces separator text = [text] := by
  induction text with
  | nil => rfl
  | cons c rest ih =>
    rw [List.mem_cons, not_or] at h
    rw [pieces, if_neg (Ne.symm h.1), ih h.2]

end Text
end CommandLine
