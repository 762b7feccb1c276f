/-
# `CommandLine.Line` — a line and the substitutions made in it

Reading a line replaces expressions and variables in place.  A `Line` keeps the text that was
typed, the text after all replacements and a record of each replacement, in the order in which
they were made, so that an offset in one text can be turned into an offset in the other.  An
offset is an integer: outside the line the reckoning goes on with the shift of the nearer end.
-/
import CommandLine.Text.Basic

namespace CommandLine

/-- One replaced fragment of a line. -/
structure Substitution where
  /-- The fragment that was replaced. -/
  fragment : Text
  /-- The text that stands in its place. -/
  replacement : Text
  /-- Where the replacement starts in the line after substitution. -/
  substitutedIndex : Int
  /-- Where the fragment starts in the line as typed. -/
  typedIndex : Int
deriving DecidableEq

/-- How many characters the replacement is longer than the fragment. -/
def Substitution.growth (s : Substitution) : Int :=
  (s.replacement.length : Int) - (s.fragment.length : Int)

/-- A line as typed and as it reads after the substitutions made in it. -/
structure Line where
  /-- The line as typed. -/
  typed : Text
  /-- The line after all substitutions. -/
  substituted : Text
  /-- The substitutions, in the order in which they were made. -/
  substitutions : List Substitution := []
deriving DecidableEq

namespace Line

/-- A line without substitutions. -/
def ofText (text : Text) : Line := ⟨text, text, []⟩

/-- A line of two texts; an empty second text stands for the first one. -/
def ofTexts (typed substituted : Text) : Line :=
  ⟨typed, if substituted.isEmpty then typed else substituted, []⟩

/-- The sum of the growths of some substitutions. -/
def totalGrowth (substitutions : List Substitution) : Int :=
  substitutions.foldr (fun s total => s.growth + total) 0

/-- Records a substitution made at a location of the substituted line, the text of which stays. -/
def record (line : Line) (fragment replacement : Text) (location : Int) : Line :=
  { line with
    substitutions := line.substitutions ++
      [⟨fragment, replacement, location, location - totalGrowth line.substitutions⟩] }

/-- Replaces the fragment at a location by another text and records it. -/
def substitute (line : Line) (fragment replacement : Text) (location : Nat) : Line :=
  { line.record fragment replacement location with
    substituted := line.substituted.replaceAt location fragment.length replacement }

/-- The offset in the line as typed that belongs to an offset in the substituted line: the growths
of all substitutions up to there are taken off. -/
def typedOffset (line : Line) (offset : Int) : Int :=
  offset - totalGrowth (line.substitutions.takeWhile fun s => s.substitutedIndex ≤ offset)

/-- The offset in the substituted line that belongs to an offset in the line as typed. -/
def substitutedOffset (line : Line) (offset : Int) : Int :=
  offset + totalGrowth (line.substitutions.takeWhile fun s => s.typedIndex ≤ offset)

@[simp] theorem typed_record (line : Line) (fragment replacement : Text) (location : Int) :
    (line.record fragment replacement location).typed = line.typed := rfl

@[simp] theorem substituted_record (line : Line) (fragment replacement : Text) (location : Int) :
    (line.record fragment replacement location).substituted = line.substituted := rfl

@[simp] theorem typed_substitute (line : Line) (fragment replacement : Text) (location : Nat) :
    (line.substitute fragment replacement location).typed = line.typed := rfl

@[simp] theorem substituted_substitute (line : Line) (fragment replacement : Text)
    (location : Nat) : (line.substitute fragment replacement location).substituted =
      line.substituted.replaceAt location fragment.length replacement := rfl

/-- Without substitutions the two texts have the same offsets. -/
theorem typedOffset_ofText (text : Text) (offset : Int) :
    (ofText text).typedOffset offset = offset := by
  simp [typedOffset, ofText, totalGrowth]

end Line
end CommandLine
