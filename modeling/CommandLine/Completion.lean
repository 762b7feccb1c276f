/-
# `CommandLine.Completion` — the value that is being typed

Completion matches candidates against the content of the value that is being typed, which may
still have open quotes, and puts them in place of that content: at the end of the typed text, from
`offset` on.  The content is the text without the gaps before the value and without the quotes.
-/
import CommandLine.Grammar
import CommandLine.Run

namespace CommandLine

/-- The value that is being typed, as completion sees it. -/
structure TypedValue where
  /-- The value without quotes, escapes kept. -/
  content : Text
  /-- The number of typed characters that are not part of the content. -/
  offset : Nat
deriving DecidableEq

namespace TypedValue

/-- The listener that gathers the content. -/
def listener : Listener StateName Text where
  hear signal c content :=
    match signal with
    | .content => { gathered := content ++ c.character }
    | _ => { gathered := content }

/-- The value at the end of a text that is being typed. -/
def read (text : Option Text) : Except Fault TypedValue :=
  let (content, outcome) := grammar.read {} false listener .typedStart text []
  outcome.map fun _ =>
    { content := content, offset := (text.getD []).length - content.length }

end TypedValue
end CommandLine
