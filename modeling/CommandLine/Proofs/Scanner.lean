/-
# `CommandLine.Proofs.Scanner` — arguments scanned with one stack

To see whether a line of arguments ends inside a value no machine is needed.  A scanner with one
stack will do, which holds the delimiters that are open and where they stand:

    outside     a gap is skipped, `-` starts a name, `>` the target, all else a value
    name        a gap ends the argument, `=` ends the name
    separated   a gap ends the argument, all else starts its value
    value       a delimiter opens or closes a part, a backslash skips the next character, and a
                gap ends the value if nothing is open
    target      takes the rest of the line

`Scanner.missing` is what a line leaves open, and `Scanner.depth` the number of states that a run
needs where the scanner stands.  At the end of a line a run gives up one thing after the other
(`Scanner.retreat`); what is missing is the first complaint on this way back
(`Scanner.missing_eq`).
-/
import CommandLine.Error
import CommandLine.Text.Blank

namespace CommandLine

open Text

/-- What delimits a part of a value. -/
inductive Delimiter where
  | brackets | parentheses | braces | quotes | backQuotes
deriving DecidableEq

namespace Delimiter

/-- What a character opens. -/
def ofOpening? (d : Char) : Option Delimiter :=
  if d = '[' then some brackets
  else if d = '(' then some parentheses
  else if d = '{' then some braces
  else if d = '"' then some quotes
  else if d = '\x60' then some backQuotes
  else none

/-- The character that closes the part. -/
def closing : Delimiter → Char
  | brackets => ']'
  | parentheses => ')'
  | braces => '}'
  | quotes => '"'
  | backQuotes => '\x60'

/-- Nothing can be opened in the part. -/
def isQuote : Delimiter → Bool
  | quotes | backQuotes => true
  | _ => false

end Delimiter

/-- A part of a value that is open. -/
structure OpenPart where
  /-- What delimits the part. -/
  delimiter : Delimiter
  /-- Where the opening delimiter stands. -/
  start : Nat
deriving DecidableEq

/-- What the scanner knows of the text that it has gone over. -/
inductive Scanner where
  /-- No argument is being read. -/
  | outside
  /-- The name of an argument is being read. -/
  | name
  /-- The value of an argument with a name can start. -/
  | separated
  /-- A value is being read, some parts of which are open, the innermost first. -/
  | value (named : Bool) (opened : List OpenPart) (escaped : Bool)
  /-- The output target is being read. -/
  | target
deriving DecidableEq

namespace Scanner

/-- The parts that are open after a character which can only open a further one. -/
def openAt (location : Nat) (d : Char) (opened : List OpenPart) : List OpenPart :=
  match Delimiter.ofOpening? d with
  | some delimiter => ⟨delimiter, location⟩ :: opened
  | none => opened

/-- Goes over a character of a value. -/
def takeIn (named : Bool) (opened : List OpenPart) (location : Nat) (d : Char) : Scanner :=
  if d = '\\' then value named opened true
  else
    match opened with
    | [] => value named (openAt location d []) false
    | o :: outer =>
      if d = o.delimiter.closing then value named outer false
      else if o.delimiter.isQuote then value named (o :: outer) false
      else value named (openAt location d (o :: outer)) false

/-- Goes over the character at a location. -/
def step (location : Nat) (d : Char) : Scanner → Scanner
  | outside =>
    if isGap d then outside else if d = '-' then name else if d = '>' then target
    else takeIn false [] location d
  | name => if isGap d then outside else if d = '=' then separated else name
  | separated => if isGap d then outside else takeIn true [] location d
  | value named opened true => value named opened false
  | value named [] false => if isGap d then outside else takeIn named [] location d
  | value named (o :: outer) false => takeIn named (o :: outer) location d
  | target => target

/-- Goes over a text that starts at a location. -/
def run (location : Nat) (scanner : Scanner) : Text → Scanner
  | [] => scanner
  | d :: text => run (location + 1) (scanner.step location d) text

/-- What the scanner knows of a text. -/
def after (text : Text) : Scanner := run 0 outside text

theorem run_concat (location : Nat) (scanner : Scanner) (text : Text) (d : Char) :
    run location scanner (text ++ [d]) =
      (run location scanner text).step (location + text.length) d := by
  induction text generalizing location scanner with
  | nil => rfl
  | cons e text ih =>
    rw [List.cons_append, run, ih, run, List.length_cons]
    congr 1
    omega

theorem after_concat (text : Text) (d : Char) :
    after (text ++ [d]) = (after text).step text.length d := by
  rw [after, run_concat, Nat.zero_add, after]

/-- The complaint about the innermost part that is open. -/
def missing : Scanner → Option FormatError
  | value _ (o :: _) _ => some (.valueNotFinished [o.delimiter.closing] o.start)
  | _ => none

/-- How many states the scanner stands for. -/
def depth : Scanner → Nat
  | outside => 1
  | name | target => 2
  | separated => 3
  | value named opened escaped => (if named then 4 else 2) + opened.length + escaped.toNat

/-- Expressions and variables are looked for, as they are not after a backslash and inside back
quotes. -/
def resolves : Scanner → Bool
  | value _ opened escaped => !escaped && opened.all fun o => o.delimiter ≠ .backQuotes
  | _ => true

/-- The last character was a backslash that takes the next one as it is. -/
def isEscaped : Scanner → Bool
  | value _ _ escaped => escaped
  | _ => false

/-- A character without a meaning starts a value or continues it. -/
theorem takeIn_eq_self {d : Char} (hbackslash : d ≠ '\\') (hopens : Delimiter.ofOpening? d = none)
    (named : Bool) (location : Nat) : takeIn named [] location d = value named [] false := by
  rw [takeIn, if_neg hbackslash]
  show value named (openAt location d []) false = _
  rw [openAt, hopens]

/-- Taking a character into a value leaves no state. -/
theorem depth_le_takeIn (named : Bool) (location : Nat) (d : Char) :
    (value named [] false).depth ≤ (takeIn named [] location d).depth := by
  rw [takeIn]
  split
  · exact Nat.le_add_right _ _
  · show depth _ ≤ (value named (openAt location d []) false).depth
    rw [openAt]
    split
    · exact Nat.le_succ _
    · exact Nat.le_refl _

/-- A blank has no meaning in a value. -/
theorem takeIn_of_isBlank {d : Char} (hd : isBlank d = true) (named : Bool) (location : Nat) :
    takeIn named [] location d = value named [] false := by
  have other {e : Char} (he : isBlank e = false) : d ≠ e := by
    rintro rfl
    cases hd.symm.trans he
  refine takeIn_eq_self (other rfl) ?_ named location
  rw [Delimiter.ofOpening?, if_neg (other rfl), if_neg (other rfl), if_neg (other rfl),
    if_neg (other rfl), if_neg (other rfl)]

/-- A blank between two arguments is passed over or starts a value. -/
theorem step_outside_of_isBlank {d : Char} (hd : isBlank d = true) (location : Nat) :
    outside.step location d = if isGap d then outside else value false [] false := by
  have hdash : d ≠ '-' := by
    rintro rfl
    cases hd
  have htarget : d ≠ '>' := by
    rintro rfl
    cases hd
  rw [step, if_neg hdash, if_neg htarget, takeIn_of_isBlank hd]

/-- A text of blanks leaves nothing open. -/
theorem missing_of_isBlankText {text : Text} (h : isBlankText text = true) :
    (after text).missing = none := by
  -- the scanner is between two arguments or in a value without parts all the time
  have hrun (location : Nat) (scanner : Scanner)
      (hscanner : scanner = outside ∨ scanner = value false [] false) :
      (run location scanner text).missing = none := by
    induction text generalizing location scanner with
    | nil => rcases hscanner with rfl | rfl <;> rfl
    | cons d text ih =>
      rw [isBlankText, List.all_cons, Bool.and_eq_true] at h
      have hstep : scanner.step location d = if isGap d then outside else value false [] false := by
        rcases hscanner with rfl | rfl
        · exact step_outside_of_isBlank h.1 location
        · rw [step, takeIn_of_isBlank h.1]
      refine ih h.2 _ _ ?_
      rw [hstep]
      split
      · exact .inl rfl
      · exact .inr rfl
  exact hrun 0 outside (.inl rfl)

/-! ### Going back -/

/-- The scanner without what it has taken up last. -/
def retreat : Scanner → Scanner
  | value named opened true => value named opened false
  | value named (_ :: outer) false => value named outer false
  | _ => outside

/-- The complaint of the innermost state at the end of the line. -/
def complaint : Scanner → Option FormatError
  | value _ (o :: _) false => some (.valueNotFinished [o.delimiter.closing] o.start)
  | _ => none

/-- What is missing is complained about in one of the rounds. -/
theorem missing_eq (scanner : Scanner) :
    scanner.missing = scanner.complaint.or scanner.retreat.missing := by
  cases scanner with
  | value named opened escaped => cases opened <;> cases escaped <;> rfl
  | _ => rfl

theorem depth_retreat_lt {scanner : Scanner} (h : scanner ≠ outside) :
    scanner.retreat.depth < scanner.depth := by
  cases scanner with
  | outside => exact absurd rfl h
  | value named opened escaped =>
    cases escaped with
    | true => exact Nat.lt_succ_self _
    | false =>
      cases opened with
      | nil => cases named <;> decide
      | cons o outer => exact Nat.lt_succ_self _
  | _ => decide

theorem one_lt_depth {scanner : Scanner} (h : scanner ≠ outside) : 1 < scanner.depth := by
  cases scanner with
  | outside => exact absurd rfl h
  | value named opened escaped =>
    rw [depth]
    split <;> omega
  | _ => decide

end Scanner
end CommandLine
