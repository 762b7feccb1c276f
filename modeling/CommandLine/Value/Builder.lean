/-
# `CommandLine.Value.Builder` — building a structured value from a run

A builder listens to a run of the grammar of structured values.  It keeps the lists and objects
that are open, the innermost first, each with its finished items and a draft of the item that is
being read.  When a list or an object is left it becomes the value of the draft around it; when
the whole text is left, its value is the result.
-/
import CommandLine.Grammar.StateName
import CommandLine.Listener
import CommandLine.Value.Basic
import CommandLine.Value.Bytes

namespace CommandLine.Value

open Text

/-- The item that is being read. -/
structure Draft where
  /-- The name, once its `=` has been read. -/
  name : Option Text := none
  /-- The text read so far. -/
  buffer : Text := []
  /-- The list, object or byte string that has been read. -/
  value : Option Value := none
  /-- A quoted text has been opened. -/
  quoted : Bool := false
  /-- Where the quoted text ends in the buffer, once its closing quote has been read. -/
  quotedEnd : Option Nat := none

namespace Draft

/-- The word before the braces of a byte string. -/
def bytesWord : Text := ['b', 'y', 't', 'e', 's']

/-- Only plain text has been read. -/
def isPlain (d : Draft) : Bool := d.value.isNone && !d.quoted

/-- What can stand next in the draft. -/
def place (d : Draft) : Place where
  startsValue := d.isPlain && isBlankText d.buffer
  opensBytes := d.isPlain && trim d.buffer == bytesWord
  endsName := d.name.isNone && d.isPlain && !isBlankText d.buffer

/-- A value has been read to its end, so only blanks can follow. -/
def isClosed (d : Draft) : Bool := d.value.isSome || d.quotedEnd.isSome

/-- Adds a character to the text. -/
def append (d : Draft) (character : Text) : Draft := { d with buffer := d.buffer ++ character }

/-- Takes the text read so far as the name. -/
def takeName (d : Draft) : Draft := { d with name := some (trim d.buffer), buffer := [] }

/-- The text of a quoted item: what stands in the quotes, and what follows without the blanks at
its end. -/
def quotedText (d : Draft) : Text :=
  let stop := d.quotedEnd.getD d.buffer.length
  d.buffer.take stop ++ trimEnd (d.buffer.drop stop)

/-- The finished item; an empty text without a name is none. -/
def item? (d : Draft) : Option (Option Text × Value) :=
  match d.value with
  | some value => some (d.name, value)
  | none =>
    if d.quoted then some (d.name, .text d.quotedText)
    else if isBlankText d.buffer && d.name.isNone then none
    else some (d.name, .text (trim d.buffer))

end Draft

/-- What the items belong to. -/
inductive Kind where
  /-- The whole text. -/
  | whole
  /-- A list in brackets. -/
  | list
  /-- An object in braces. -/
  | object
deriving DecidableEq

/-- An open list or object, or the whole text. -/
structure Level where
  /-- What it is. -/
  kind : Kind
  /-- The finished items. -/
  items : List (Option Text × Value) := []
  /-- The item that is being read. -/
  draft : Draft := {}

namespace Level

/-- Ends the item that is being read. -/
def finishItem (l : Level) : Level :=
  { l with items := l.items ++ l.draft.item?.toList, draft := {} }

/-- The entries that the items with names stand for. -/
def entries (l : Level) : List (Text × Value) :=
  Entries.ofList (l.items.filterMap fun item => item.1.map (·, item.2))

/-- Every item has a name. -/
def allNamed (l : Level) : Bool := l.items.all (·.1.isSome)

/-- The first item without a name. -/
def firstUnnamed? (l : Level) : Option Value := (l.items.find? (·.1.isNone)).map (·.2)

/-- The value that the items stand for. -/
def value (l : Level) : Except FormatError (Option Value) :=
  match l.kind with
  | .object =>
    match l.firstUnnamed? with
    | some value => .error (.nameMissing value.shownBare)
    | none => .ok (some (.dict l.entries))
  | .list => .ok (some (.list l.items))
  | .whole =>
    match l.items with
    | [] => .ok none
    | [(none, value)] => .ok (some value)
    | items => .ok (some (if l.allNamed then .dict l.entries else .list items))

end Level

/-- The state of building a value. -/
structure Builder where
  /-- The open lists and objects, the innermost first. -/
  levels : List Level := []
  /-- The value of the whole text. -/
  result : Option Value := none

namespace Builder

/-- Changes the innermost list or object; there must be one. -/
def mapLevel (b : Builder) (change : Level → Level) : Reply Builder :=
  match b.levels with
  | [] => { gathered := b, verdict := .refuse (.defect .noOpenValue) }
  | level :: outer => { gathered := { b with levels := change level :: outer } }

/-- Changes the draft of the innermost list or object. -/
def mapDraft (b : Builder) (change : Draft → Draft) : Reply Builder :=
  b.mapLevel fun l => { l with draft := change l.draft }

/-- The draft of the innermost list or object; there must be one. -/
def draft (b : Builder) : Except Defect Draft :=
  match b.levels with
  | [] => .error .noOpenValue
  | level :: _ => .ok level.draft

/-- Opens a list or an object. -/
def openLevel (b : Builder) (kind : Kind) : Builder :=
  { b with levels := { kind := kind } :: b.levels }

/-- Closes the innermost list or object; there must be one. -/
def closeLevel (b : Builder) : Reply Builder :=
  match b.levels with
  | [] => { gathered := b, verdict := .refuse (.defect .emptyStack) }
  | level :: outer =>
    let b := { b with levels := outer }
    match level.finishItem.value with
    | .error e => { gathered := b, verdict := .refuse (.format e) }
    | .ok value =>
      if outer.isEmpty then { gathered := { b with result := value } }
      else b.mapDraft fun d => { d with value := value }

/-- Turns the text of the draft into a byte string; errors are reported where the current state was
entered, so there must be one. -/
def closeBytes (b : Builder) (start : Option Int) : Reply Builder :=
  match b.draft, start with
  | .error d, _ => { gathered := b, verdict := .refuse (.defect d) }
  | .ok _, none => { gathered := b, verdict := .refuse (.breach .noActiveState) }
  | .ok d, some offset =>
    match readBytes offset d.buffer with
    | .error e => { gathered := b, verdict := .refuse (.format e) }
    | .ok octets => b.mapDraft fun d => { d with value := some (.bytes octets), buffer := [] }

/-- Takes a character as content; after the end of a value only blanks can stand. -/
def takeContent (b : Builder) (character : Text) (location : Int) : Reply Builder :=
  match b.draft with
  | .error d => { gathered := b, verdict := .refuse (.defect d) }
  | .ok d =>
    if d.isClosed && !(!character.isEmpty && isBlankText character) then
      { gathered := b, verdict := .complain (.textAfterValue character location) }
    else b.mapDraft (·.append character)

/-- The reaction to a state that has been entered. -/
def enterState (b : Builder) : StateName → Reply Builder
  | .value => { gathered := b.openLevel .whole }
  | .list => { gathered := b.openLevel .list }
  | .object => { gathered := b.openLevel .object }
  | .valueQuotes => b.mapDraft fun d => { d with buffer := [], quoted := true }
  | .bytes => b.mapDraft fun d => { d with buffer := [] }
  | _ => { gathered := b }

/-- The reaction to a state that is about to be left; `start` is where it was entered. -/
def leaveState (b : Builder) (start : Option Int) : StateName → Reply Builder
  | .value | .list | .object => b.closeLevel
  | .valueQuotes => b.mapDraft fun d => { d with quotedEnd := some d.buffer.length }
  | .bytes => b.closeBytes start
  | _ => { gathered := b }

/-- The reaction to a signal. -/
def hear (signal : Signal StateName) (c : Context StateName) (b : Builder) : Reply Builder :=
  match signal with
  | .entered state => b.enterState state
  | .leaving state => b.leaveState (c.frame?.map Frame.location) state
  | .content => b.takeContent c.character c.location
  | .itemEnd => b.mapLevel Level.finishItem
  | .nameEnd => b.mapDraft fun d => if d.place.endsName then d.takeName else d

/-- The listener that builds a value. -/
def listener : Listener StateName Builder where
  hear := hear
  place b := b.draft.map Draft.place

end Builder
end CommandLine.Value
