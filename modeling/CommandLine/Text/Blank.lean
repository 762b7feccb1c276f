/-
# `CommandLine.Text.Blank` — the two kinds of white space

A *gap* is what separates the parts of a line: the six characters of `gapCharacters`.  A *blank*
is any white space character of Unicode and the four separator controls; trimming a token removes
blanks.  Every gap is a blank (`isBlank_of_isGap`), and no other way round: a line that holds
only blanks is empty, but a no-break space inside a line separates nothing.
-/
import CommandLine.Text.Basic

namespace CommandLine.Text

/-- The characters that separate the parts of a line. -/
def gapCharacters : Text := [' ', '\t', '\n', '\r', '\x0c', '\x0b']

/-- A character that separates the parts of a line. -/
def isGap (c : Char) : Bool := gapCharacters.contains c

/-- A text that is a stretch of `gapCharacters`, in that order; a single character is one if and
only if it is a gap. -/
def isGapStretch (text : Text) : Bool := !text.isEmpty && occursIn text gapCharacters

/-- White space that trimming removes. -/
def isBlank (c : Char) : Bool :=
  (9 ≤ c.toNat && c.toNat ≤ 13) || (28 ≤ c.toNat && c.toNat ≤ 32) || c.toNat == 0x85 ||
    c.toNat == 0xA0 || c.toNat == 0x1680 || (0x2000 ≤ c.toNat && c.toNat ≤ 0x200A) ||
    c.toNat == 0x2028 || c.toNat == 0x2029 || c.toNat == 0x202F || c.toNat == 0x205F ||
    c.toNat == 0x3000

/-- The text without the blanks at its start. -/
def trimStart (text : Text) : Text := text.dropWhile isBlank

/-- The text without the blanks at its end. -/
def trimEnd (text : Text) : Text := (text.reverse.dropWhile isBlank).reverse

/-- The text without the blanks at either end. -/
def trim (text : Text) : Text := trimEnd (trimStart text)

/-- A text that trimming leaves empty. -/
def isBlankText (text : Text) : Bool := text.all isBlank

theorem isBlank_of_isGap {c : Char} (h : isGap c = true) : isBlank c = true := by
  simp only [isGap, gapCharacters, List.contains_cons, List.contains_nil, Bool.or_false,
    Bool.or_eq_true, beq_iff_eq] at h
  rcases h with rfl | rfl | rfl | rfl | rfl | rfl <;> rfl

theorem isGapStretch_singleton (c : Char) : isGapStretch [c] = isGap c := by
  rw [Bool.eq_iff_iff]
  simp [isGapStretch, isGap, gapCharacters, occursIn, List.isPrefixOf]

/-! ## Blanks around a text -/

variable {text front back : Text}

theorem not_mem_of_isBlankText {d : Char} (hd : isBlank d = false)
    (h : isBlankText text = true) : d ∉ text := by
  intro hmem
  have hblank := List.all_eq_true.1 h d hmem
  rw [hd] at hblank
  cases hblank

theorem trimStart_append (hfront : isBlankText front = true) (text : Text) :
    trimStart (front ++ text) = trimStart text :=
  List.dropWhile_append_of_pos (List.all_eq_true.1 hfront)

/-- What is trimmed off the start of a text is blanks. -/
theorem exists_trimStart (text : Text) :
    ∃ front, isBlankText front = true ∧ text = front ++ trimStart text :=
  ⟨text.takeWhile isBlank, List.all_takeWhile, List.takeWhile_append_dropWhile.symm⟩

/-- What is trimmed off the end of a text is blanks. -/
theorem exists_trimEnd (text : Text) :
    ∃ back, isBlankText back = true ∧ text = trimEnd text ++ back := by
  obtain ⟨front, hfront, hreverse⟩ := exists_trimStart text.reverse
  refine ⟨front.reverse, ?_, ?_⟩
  · rw [isBlankText, List.all_reverse]
    exact hfront
  · have htext := congrArg List.reverse hreverse
    rwa [List.reverse_reverse, List.reverse_append] at htext

/-- What is trimmed off a text is blanks. -/
theorem exists_trim (text : Text) : ∃ front back, isBlankText front = true ∧
    isBlankText back = true ∧ text = front ++ (trim text ++ back) := by
  obtain ⟨front, hfront, htext⟩ := exists_trimStart text
  obtain ⟨back, hback, hrest⟩ := exists_trimEnd (trimStart text)
  exact ⟨front, back, hfront, hback, htext.trans (congrArg (front ++ ·) hrest)⟩

theorem trimEnd_append (text : Text) (hback : isBlankText back = true) :
    trimEnd (text ++ back) = trimEnd text := by
  have hall : ∀ d ∈ back.reverse, isBlank d = true := by
    intro d hd
    exact List.all_eq_true.1 hback d (List.mem_reverse.1 hd)
  rw [trimEnd, List.reverse_append, List.dropWhile_append_of_pos hall]
  rfl

theorem trimEnd_of_isBlankText (h : isBlankText text = true) : trimEnd text = [] :=
  trimEnd_append [] h

theorem trimStart_of_isBlankText (h : isBlankText text = true) : trimStart text = [] := by
  have hstart := trimStart_append h []
  rwa [List.append_nil] at hstart

/-- Trimming leaves nothing of a blank text. -/
theorem trim_of_isBlankText (h : isBlankText text = true) : trim text = [] := by
  rw [trim, trimStart_of_isBlankText h]
  rfl

/-- Trimming removes blanks around a text. -/
theorem trim_append (hfront : isBlankText front = true) (hback : isBlankText back = true) :
    trim (front ++ (text ++ back)) = trim text := by
  rw [trim, trim, trimStart_append hfront, trimStart, List.dropWhile_append]
  split
  · next hblank =>
    have htext : trimStart text = [] := List.isEmpty_iff.1 hblank
    rw [htext]
    exact congrArg trimEnd (trimStart_of_isBlankText hback)
  · exact trimEnd_append _ hback

theorem trimStart_of_all (h : text.all (fun d => !isBlank d) = true) : trimStart text = text := by
  cases text with
  | nil => rfl
  | cons c rest =>
    rw [List.all_cons, Bool.and_eq_true, Bool.not_eq_true'] at h
    rw [trimStart, List.dropWhile_cons, h.1, if_neg Bool.false_ne_true]

/-- Trimming keeps a text without blanks. -/
theorem trim_of_all (h : text.all (fun d => !isBlank d) = true) : trim text = text := by
  have hreverse : text.reverse.all (fun d => !isBlank d) = true := by rwa [List.all_reverse]
  rw [trim, trimStart_of_all h]
  show (trimStart text.reverse).reverse = text
  rw [trimStart_of_all hreverse, List.reverse_reverse]

end CommandLine.Text
