/-
# `CommandLine.Text.Offset` — places in a text that an integer names

An offset from zero on counts the characters before a place, and an offset below zero counts from
the end of the text.  A stretch between two offsets is cut to the text.  Reading on from an offset
below zero takes the characters that end the text and then all of them once more.
-/
import CommandLine.Text.Basic

namespace CommandLine.Text

/-- How many characters come before an offset. -/
def before (text : Text) (offset : Int) : Nat :=
  if 0 ≤ offset then offset.toNat else (text.length + offset).toNat

/-- The text from an offset on. -/
def suffixAt (text : Text) (start : Int) : Text := text.drop (before text start)

/-- The text from one offset up to another. -/
def between (text : Text) (start stop : Int) : Text :=
  slice text (before text start) (before text stop)

/-- The characters that are read from an offset on, if it does not lie before the first one. -/
def readingFrom? (text : Text) (offset : Int) : Option Text :=
  if 0 ≤ offset then some (suffixAt text offset)
  else if text.length + offset < 0 then none
  else some (suffixAt text offset ++ text)

@[simp] theorem before_natCast (text : Text) (n : Nat) : before text n = n := by
  simp [before]

@[simp] theorem suffixAt_natCast (text : Text) (n : Nat) : suffixAt text n = text.drop n := by
  simp [suffixAt]

/-- From zero on reading from an offset is reading the rest of the text. -/
@[simp] theorem readingFrom?_natCast (text : Text) (n : Nat) :
    readingFrom? text n = some (text.drop n) := by
  simp [readingFrom?]

/-- From zero on a stretch starts in the rest of the text. -/
theorem between_natCast_add (text : Text) (n length : Nat) :
    between text n (n + length) = (text.drop n).take length := by
  have h : ((n : Int) + length) = ((n + length : Nat) : Int) := rfl
  rw [between, h, before_natCast, before_natCast, slice, Nat.add_sub_cancel_left]

theorem between_append (front value back : Text) :
    between (front ++ (value ++ back)) front.length (front.length + value.length) = value := by
  rw [between_natCast_add, List.drop_left, List.take_left]

end CommandLine.Text
