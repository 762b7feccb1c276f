/-
# `CommandLine.Value.Bytes` — byte strings as they are typed

A byte string is a list of numerals separated by commas: decimal ones from -128 to 127, or
hexadecimal ones from 0x0 to 0xff.  Blanks around a numeral and blank places between two commas
are skipped; a negative number stands for the byte with the same remainder modulo 256.
-/
import CommandLine.Error
import CommandLine.Text.Blank
import CommandLine.Text.Numeral

namespace CommandLine.Value

open Text

/-- The number that a numeral stands for, and whether it fits into a byte. -/
def byteNumber? (token : Text) : Option (Int × Bool) :=
  match hexBody? token with
  | some body => (readHexBody body).map fun n => ((n : Int), n ≤ 255)
  | none => (readDecimal token).map fun n => (n, -128 ≤ n && n ≤ 127)

/-- The byte that a numeral stands for; `offset` is where errors are reported. -/
def readByte (offset : Int) (token : Text) : Except FormatError UInt8 :=
  match byteNumber? token with
  | none => .error (.invalidByte token offset)
  | some (number, fits) =>
    if fits then .ok (UInt8.ofNat (number % 256).toNat) else .error (.byteOutOfRange token offset)

/-- The numerals of a byte string. -/
def byteTokens (text : Text) : List Text :=
  ((pieces ',' text).map trim).filter fun token => !token.isEmpty

/-- The bytes that a text stands for; `offset` is where errors are reported. -/
def readBytes (offset : Int) (text : Text) : Except FormatError (List UInt8) :=
  (byteTokens text).mapM (readByte offset)

end CommandLine.Value
