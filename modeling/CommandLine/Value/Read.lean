/-
# `CommandLine.Value.Read` — reading a structured value

`Value.read` turns the text of an argument value into a structured value; a blank text has none.
In strict mode an unclosed bracket, brace or quote is an error, otherwise the value is what was
read so far.
-/
import CommandLine.Grammar
import CommandLine.Run
import CommandLine.Value.Builder

namespace CommandLine.Value

/-- Reads the text of a structured value. -/
def read (strict : Bool) (text : Option Text) : Except Fault (Option Value) :=
  let (builder, outcome) :=
    grammar.read {} strict Builder.listener .value text {}
  outcome.map fun _ => builder.result

end CommandLine.Value
