/-
# `CommandLine.Text.Quoted` — text and bytes shown in quotes

A quoted text names each character in a way that can be read on any terminal: printable characters
stand for themselves, the backslash and the surrounding quote are escaped, tab, newline and return
have letters and all else is named by its code point.  The quote is an apostrophe unless the text
holds an apostrophe and no double quote.  Bytes follow the same rule, printable ASCII standing for
itself.
-/
import CommandLine.Text.Printable
import CommandLine.Text.Basic

namespace CommandLine.Text

/-- A number in lower case hexadecimal, filled up with zeros to a width. -/
def hexadecimal (width n : Nat) : Text :=
  let digits := Nat.toDigits 16 n
  List.replicate (width - digits.length) '0' ++ digits

/-- Items one after the other, separated by a comma and a space. -/
def commaSeparated (items : List Text) : Text := [',', ' '].intercalate items

/-- A number in decimal. -/
def decimal (n : Nat) : Text := Nat.toDigits 10 n

/-- An integer in decimal, with a minus sign before it where it is below zero. -/
def integer (n : Int) : Text := if n < 0 then '-' :: decimal n.natAbs else decimal n.natAbs

/-- The quote that surrounds a text. -/
def quoteFor (text : Text) : Char :=
  if text.contains '\x27' && !text.contains '\x22' then '\x22' else '\x27'

/-- The code point of a character, in the shortest of three forms that holds it. -/
def codePoint (n : Nat) : Text :=
  if n < 0x100 then '\\' :: 'x' :: hexadecimal 2 n
  else if n < 0x10000 then '\\' :: 'u' :: hexadecimal 4 n
  else '\\' :: 'U' :: hexadecimal 8 n

/-- One character inside quotes, given which characters are shown as they are. -/
def quotedChar (quote : Char) (shown : Bool) (c : Char) : Text :=
  if c = '\\' || c = quote then ['\\', c]
  else if c = '\t' then ['\\', 't']
  else if c = '\n' then ['\\', 'n']
  else if c = '\r' then ['\\', 'r']
  else if shown then [c]
  else codePoint c.toNat

/-- A text in quotes. -/
def quoted (text : Text) : Text :=
  let quote := quoteFor text
  quote :: text.flatMap (fun c => quotedChar quote (isPrintable c) c) ++ [quote]

/-- Bytes in quotes, marked by a letter. -/
def quotedBytes (bytes : List UInt8) : Text :=
  let text := bytes.map fun b => Char.ofNat b.toNat
  let quote := quoteFor text
  'b' :: quote :: text.flatMap (fun c => quotedChar quote (32 ≤ c.toNat && c.toNat < 127) c) ++
    [quote]

end CommandLine.Text
