/-
# `CommandLine.Text.Numeral` — whole numbers as they are typed

A numeral is a run of digits with at most one underscore between two of them.  Digits are the
decimal digits of every script; base sixteen adds the Latin letters from A to F in either case.
A decimal numeral may carry a sign and holds at most `decimalLimit` digits; a hexadecimal one is
marked by `0x` or `0X` and has neither a sign nor a limit.
-/
import CommandLine.Text.Basic

namespace CommandLine.Text

/-- The zeros of the scripts that have decimal digits; the nine other digits follow each zero. -/
def zeroDigits : List Nat :=
  [0x30, 0x660, 0x6F0, 0x7C0, 0x966, 0x9E6, 0xA66, 0xAE6, 0xB66, 0xBE6, 0xC66, 0xCE6, 0xD66,
   0xDE6, 0xE50, 0xED0, 0xF20, 0x1040, 0x1090, 0x17E0, 0x1810, 0x1946, 0x19D0, 0x1A80, 0x1A90,
   0x1B50, 0x1BB0, 0x1C40, 0x1C50, 0xA620, 0xA8D0, 0xA900, 0xA9D0, 0xA9F0, 0xAA50, 0xABF0, 0xFF10,
   0x104A0, 0x10D30, 0x11066, 0x110F0, 0x11136, 0x111D0, 0x112F0, 0x11450, 0x114D0, 0x11650,
   0x116C0, 0x11730, 0x118E0, 0x11950, 0x11C50, 0x11D50, 0x11DA0, 0x16A60, 0x16AC0, 0x16B50,
   0x1D7CE, 0x1D7D8, 0x1D7E2, 0x1D7EC, 0x1D7F6, 0x1E140, 0x1E2F0, 0x1E950, 0x1FBF0]

/-- The value of a decimal digit of any script. -/
def decimalDigit? (c : Char) : Option Nat :=
  (zeroDigits.find? fun first => first ≤ c.toNat && c.toNat < first + 10).map (c.toNat - ·)

/-- The value of a hexadecimal digit. -/
def hexDigit? (c : Char) : Option Nat :=
  if 'a' ≤ c ∧ c ≤ 'f' then some (c.toNat - 'a'.toNat + 10)
  else if 'A' ≤ c ∧ c ≤ 'F' then some (c.toNat - 'A'.toNat + 10)
  else decimalDigit? c

/-- Goes on with a numeral after a digit: the value and the number of digits so far come in, those
of the whole numeral go out. -/
def readDigits (digit? : Char → Option Nat) (base value count : Nat) : Text → Option (Nat × Nat)
  | [] => some (value, count)
  | c :: rest =>
    match digit? c with
    | some d => readDigits digit? base (value * base + d) (count + 1) rest
    | none =>
      if c = '_' then
        match rest with
        | [] => none
        | c' :: rest' =>
          (digit? c').bind fun d => readDigits digit? base (value * base + d) (count + 1) rest'
      else none

/-- The value of a numeral and the number of its digits. -/
def readNumeral (digit? : Char → Option Nat) (base : Nat) : Text → Option (Nat × Nat)
  | [] => none
  | c :: rest => (digit? c).bind fun d => readDigits digit? base d 1 rest

/-- The most digits of a decimal numeral, leading zeros counted. -/
def decimalLimit : Nat := 4300

/-- The value of a decimal numeral without a sign. -/
def readUnsigned (text : Text) : Option Nat :=
  match readNumeral decimalDigit? 10 text with
  | some (value, count) => if count ≤ decimalLimit then some value else none
  | none => none

/-- The value of a decimal numeral; a sign stands directly before the digits. -/
def readDecimal : Text → Option Int
  | '+' :: rest => (readUnsigned rest).map Int.ofNat
  | '-' :: rest => (readUnsigned rest).map fun n => -Int.ofNat n
  | text => (readUnsigned text).map Int.ofNat

/-- What follows the mark of a hexadecimal numeral. -/
def hexBody? : Text → Option Text
  | '0' :: 'x' :: rest => some rest
  | '0' :: 'X' :: rest => some rest
  | _ => none

/-- The value of the digits after the mark; an underscore may stand before the first of them. -/
def readHexBody : Text → Option Nat
  | '_' :: rest => (readNumeral hexDigit? 16 rest).map (·.1)
  | text => (readNumeral hexDigit? 16 text).map (·.1)

end CommandLine.Text
