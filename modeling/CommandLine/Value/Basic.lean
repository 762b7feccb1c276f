/-
# `CommandLine.Value.Basic` — structured values

    a,b           a list of two texts
    [a,b]         the same list
    a=1,b=2       a dictionary
    {a=1,b=[x]}   a dictionary that holds a list
    [a=1,b=2]     a list of two named items
    "a, b"        a text
    bytes{1,0x2}  a byte string

The items of a list may have names; a dictionary has one entry for each name, in the order in
which the names came up first.  `shown` writes a value for error messages.
-/
import CommandLine.Entries
import CommandLine.Text.Quoted

namespace CommandLine

open Text

/-- A structured value. -/
inductive Value where
  /-- A text. -/
  | text (characters : Text)
  /-- A byte string. -/
  | bytes (octets : List UInt8)
  /-- A list of items, each with or without a name. -/
  | list (items : List (Option Text × Value))
  /-- A dictionary. -/
  | dict (entries : List (Text × Value))

namespace Value

mutual

/-- A value in words, texts in quotes. -/
def shown : Value → Text
  | text characters => quoted characters
  | bytes octets => quotedBytes octets
  | list items => '[' :: commaSeparated (shownItems items) ++ [']']
  | dict entries => '{' :: commaSeparated (shownEntries entries) ++ ['}']

/-- The items of a list in words. -/
def shownItems : List (Option Text × Value) → List Text
  | [] => []
  | item :: rest => shownItem item :: shownItems rest

/-- An item of a list in words; one with a name is shown as a pair. -/
def shownItem : Option Text × Value → Text
  | (none, value) => shown value
  | (some name, value) => '(' :: quoted name ++ [',', ' '] ++ shown value ++ [')']

/-- The entries of a dictionary in words. -/
def shownEntries : List (Text × Value) → List Text
  | [] => []
  | entry :: rest => shownEntry entry :: shownEntries rest

/-- An entry of a dictionary in words. -/
def shownEntry : Text × Value → Text
  | (name, value) => quoted name ++ [':', ' '] ++ shown value

end

/-- A value in words, a text without quotes unless it is part of another value. -/
def shownBare : Value → Text
  | text characters => characters
  | value => shown value

end Value
end CommandLine
