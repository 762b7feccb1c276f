/-
# `CommandLine.Grammar.Shape` — states that recur in every grammar

Three shapes of state recur: the state after a backslash, which takes one character whatever it
is; a quoted string; and a part between delimiters that may hold further parts.
-/
import CommandLine.State

namespace CommandLine

/-- The action of a single character. -/
def upon {σ : Type} (c : Char) (action : Action σ) : Text × Action σ := ([c], action)

@[simp] theorem lookup_upon {σ : Type} (c d : Char) (action : Action σ)
    (rest : List (Text × Action σ)) : List.lookup [d] (upon c action :: rest) =
      if d = c then some action else List.lookup [d] rest := by
  by_cases h : d = c
  · simp [upon, h]
  · have : ([d] == [c]) = false := by simpa using h
    simp [upon, List.lookup_cons, h, this]

namespace State

variable {σ : Type}

/-- The state after a backslash: the next character is taken as it is.  The backslash itself is
content if the mark is kept. -/
def escaping (name : String) (keepsMark : Bool) : State σ where
  name := name
  escapes := some false
  expressions := some false
  onEnter := if keepsMark then .content else .skip
  otherwise := .contentAndLeave
  frozen := true

/-- A quoted string, in which gaps and separators are content.  The quotes themselves are content
if they are kept, and a missing closing quote is an error if the end is required. -/
def quoting (name : String) (quote : Text) (escape : σ) (keepsQuotes endRequired : Bool)
    (expressions : Option Bool) : State σ :=
  let base : State σ :=
    { name := name, marksValue := true, locksValue := true
      escapes := some true, expressions := expressions
      onEnter := if keepsQuotes then .content else .skip
      otherwise := .content
      onEnd := if endRequired then .notFinished quote else .skip }
  ((base.put quote (if keepsQuotes then .contentAndLeave else .leave)).put
    ['\\'] (.escape escape)).freeze

/-- A part between delimiters, delimiters included.  What can stand inside it is added before the
state is frozen. -/
def delimited (name : String) (closing : Text) : State σ where
  name := name
  marksValue := true
  locksValue := true
  onEnter := .content
  transitions := [(closing, .contentAndLeave)]
  otherwise := .content
  onEnd := .notFinished closing

end State
end CommandLine
