/-
# `CommandLine.Text.CharRange` — properties of characters as tables of ranges

A property that holds of some thousands of characters is a list of ranges of code points in
increasing order, ends included.  The search stops at the first range that starts beyond the
character, so the common characters, which come first, are found at once.
-/

namespace CommandLine.Text

/-- Whether a code point lies in one of the ranges; the ranges are in increasing order. -/
def inRanges (code : Nat) : List (Nat × Nat) → Bool
  | [] => false
  | (low, high) :: rest => low ≤ code && (code ≤ high || inRanges code rest)

end CommandLine.Text
