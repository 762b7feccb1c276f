/-
# `CommandLine.Proofs.ClosedText` — values that close what they open

A text is *closed* if it consists of characters that stand for themselves, of escaped pairs, of
quoted strings and of groups in brackets, parentheses or braces whose inside is closed as well
(`Closed`).  Which characters end a value depends on where it stands; inside a group only the
delimiter of the group does, and the delimiters of other groups stand for themselves.

    Quotable         what stands in quotes
    Closed           a closed text, with a bound on how deep its parts are nested
    isWord           a word of letters, digits, `-` and `_`, which is closed anywhere
    scan_of_closed   a closed text leaves open what was open before it

The depth of a text counts the states that are active within it, so that it can be compared with
the limit of the settings.
-/
import CommandLine.Proofs.ValueText

namespace CommandLine

open Text

/-! ## Closed texts -/

/-- The character opens a part of a value or escapes the next one. -/
def opensPart (d : Char) : Bool := ['[', '(', '{', '"', '\x60', '\\'].contains d

/-- The delimiters of groups. -/
def groups : List (Char × Char) := [('[', ']'), ('(', ')'), ('{', '}')]

/-- The text can stand between two quotes: it consists of escaped pairs and of other characters
than the quote. -/
inductive Quotable (quote : Char) : Nat → Text → Prop
  | nil {depth : Nat} : Quotable quote depth []
  | plain {depth : Nat} {d : Char} {text : Text} (hquote : d ≠ quote) (hmark : d ≠ '\\')
      (hmore : Quotable quote depth text) : Quotable quote depth (d :: text)
  | escaped {depth : Nat} {d : Char} {text : Text} (hmore : Quotable quote (depth + 1) text) :
      Quotable quote (depth + 1) ('\\' :: d :: text)

/-- The text closes all that it opens, `depth` levels deep at most; it holds none of the characters
`stops` but in its parts. -/
inductive Closed : (stops : Text) → (depth : Nat) → Text → Prop
  | nil {stops : Text} {depth : Nat} : Closed stops depth []
  | plain {stops : Text} {depth : Nat} {d : Char} {text : Text} (hopens : opensPart d = false)
      (hstops : stops.contains d = false) (hmore : Closed stops depth text) :
      Closed stops depth (d :: text)
  | escaped {stops : Text} {depth : Nat} {d : Char} {text : Text}
      (hmore : Closed stops (depth + 1) text) : Closed stops (depth + 1) ('\\' :: d :: text)
  | quoted {stops : Text} {depth : Nat} {quote : Char} {inner text : Text}
      (hquote : quote = '"' ∨ quote = '\x60') (hinner : Quotable quote depth inner)
      (hmore : Closed stops (depth + 1) text) :
      Closed stops (depth + 1) (quote :: (inner ++ quote :: text))
  | group {stops : Text} {depth : Nat} {opening closing : Char} {inner text : Text}
      (hgroup : (opening, closing) ∈ groups) (hinner : Closed [closing] depth inner)
      (hmore : Closed stops (depth + 1) text) :
      Closed stops (depth + 1) (opening :: (inner ++ closing :: text))

/-- A text of characters that stand for themselves is closed. -/
theorem closed_of_all {stops text : Text} (depth : Nat)
    (h : text.all (fun d => !opensPart d && !stops.contains d) = true) :
    Closed stops depth text := by
  induction text with
  | nil => exact .nil
  | cons d text ih =>
    simp only [List.all_cons, Bool.and_eq_true, Bool.not_eq_true'] at h
    exact .plain h.1.1 h.1.2 (ih h.2)

/-! ## Words -/

/-- A character of a plain word. -/
def isWordChar (d : Char) : Bool := d.isAlphanum || d == '-' || d == '_'

/-- The text is a plain word. -/
def isWord (text : Text) : Bool := !text.isEmpty && text.all isWordChar

theorem toNat_of_isWordChar {d : Char} (h : isWordChar d = true) : 45 ≤ d.toNat ∧ d.toNat ≤ 122 := by
  have h : ((decide ('A'.val ≤ d.val ∧ d.val ≤ 'Z'.val) ||
      (decide ('a'.val ≤ d.val) && decide (d.val ≤ 'z'.val)) ||
      (decide ('0'.val ≤ d.val) && decide (d.val ≤ '9'.val))) || d == '-' || d == '_') = true := h
  simp only [Bool.or_eq_true, Bool.and_eq_true, decide_eq_true_eq, beq_iff_eq,
    UInt32.le_iff_toNat_le] at h
  rcases h with (((h | h) | h) | rfl) | rfl
  · exact ⟨Nat.le_trans (by decide) h.1, Nat.le_trans h.2 (by decide)⟩
  · exact ⟨Nat.le_trans (by decide) h.1, Nat.le_trans h.2 (by decide)⟩
  · exact ⟨Nat.le_trans (by decide) h.1, Nat.le_trans h.2 (by decide)⟩
  · decide
  · decide

theorem isBlank_of_isWordChar {d : Char} (h : isWordChar d = true) : isBlank d = false := by
  obtain ⟨hlow, hhigh⟩ := toNat_of_isWordChar h
  simp only [isBlank, Bool.or_eq_false_iff, Bool.and_eq_false_iff, decide_eq_false_iff_not,
    beq_eq_false_iff_ne]
  omega

theorem contains_of_isWordChar {d : Char} {specials : Text}
    (hspecials : specials.all (fun c => !isWordChar c) = true) (h : isWordChar d = true) :
    specials.contains d = false := by
  rw [Bool.eq_false_iff]
  intro hmem
  have hd := List.all_eq_true.1 hspecials d (List.contains_iff_mem.1 hmem)
  rw [h] at hd
  cases hd
/-- A word is closed where none of its characters ends the value. -/
theorem closed_of_isWord {stops text : Text} (hstops : stops.all (fun c => !isWordChar c) = true)
    (h : isWord text = true) : Closed stops 0 text := by
  refine closed_of_all 0 (List.all_eq_true.2 fun d hd => ?_)
  have hword := List.all_eq_true.1 (Bool.and_eq_true_iff.1 h).2 d hd
  rw [show opensPart d = false from contains_of_isWordChar rfl hword,
    contains_of_isWordChar hstops hword]
  rfl

/-! ## Values and their parts -/

section

variable {stops text : Text} {maxDepth : Int} {x y : StateName} {outer active : List StateName}
  {d quote opening closing : Char}

/-- The state is that of a value, or of a group in one, that ends on the characters `stops`. -/
structure HoldsValue (stops : Text) (x : StateName) : Prop where
  keys : (grammar x).transitions.all
    (fun t => t.1.all fun e => opensPart e || stops.contains e) = true
  gaps : (grammar x).gapAction = .content ∨ stops = gapCharacters
  otherwise : (grammar x).otherwise = .content
  opens : Grammar.valueOpeners.map (fun t => (grammar x).actionFor t.1) =
    Grammar.valueOpeners.map Prod.snd
  escapes : (grammar x).escapes = none
  resumes : x.resumes = true

namespace HoldsValue

theorem argumentValue : HoldsValue gapCharacters .argumentValue :=
  ⟨rfl, .inr rfl, rfl, rfl, rfl, rfl⟩

theorem propertyValue : HoldsValue [',', ')'] .propertyValue :=
  ⟨rfl, .inl rfl, rfl, rfl, rfl, rfl⟩

theorem headerValue : HoldsValue [';', '}'] .headerValue :=
  ⟨rfl, .inl rfl, rfl, rfl, rfl, rfl⟩

theorem brackets : HoldsValue [']'] .brackets := ⟨rfl, .inl rfl, rfl, rfl, rfl, rfl⟩

theorem parentheses : HoldsValue [')'] .parentheses := ⟨rfl, .inl rfl, rfl, rfl, rfl, rfl⟩

theorem braces : HoldsValue ['}'] .braces := ⟨rfl, .inl rfl, rfl, rfl, rfl, rfl⟩

/-- A character that stands for itself. -/
theorem plain (hx : HoldsValue stops x) (hopens : opensPart d = false)
    (hstops : stops.contains d = false) : (grammar x).actionFor [d] = .content := by
  refine actionFor_eq_content hx.keys hx.otherwise (by rw [hopens, hstops]; rfl) fun hgap => ?_
  refine hx.gaps.resolve_right ?_
  rintro rfl
  exact absurd hgap (Bool.eq_false_iff.1 hstops)

theorem opener {action : Action StateName} (hx : HoldsValue stops x)
    (h : upon d action ∈ Grammar.valueOpeners) : (grammar x).actionFor [d] = action :=
  List.map_inj_left.1 hx.opens _ h

end HoldsValue

/-- A group has a state of its own. -/
theorem exists_group (h : (opening, closing) ∈ groups) :
    ∃ y, upon opening (.enter y) ∈ Grammar.valueOpeners ∧ y.isPart = true ∧
      HoldsValue [closing] y ∧ (grammar y).actionFor [closing] = .contentAndLeave := by
  simp only [groups, List.mem_cons, List.not_mem_nil, or_false, Prod.mk.injEq] at h
  obtain ⟨rfl, rfl⟩ | ⟨rfl, rfl⟩ | ⟨rfl, rfl⟩ := h
  · exact ⟨.brackets, by simp [Grammar.valueOpeners], rfl, .brackets, rfl⟩
  · exact ⟨.parentheses, by simp [Grammar.valueOpeners], rfl, .parentheses, rfl⟩
  · exact ⟨.braces, by simp [Grammar.valueOpeners], rfl, .braces, rfl⟩

/-- The state is that of a quoted string. -/
structure HoldsQuoted (quote : Char) (y : StateName) : Prop where
  isPart : y.isPart = true
  keys : (grammar y).transitions.all (fun t => t.1.all fun e => e == quote || e == '\\') = true
  gaps : (grammar y).gapAction = .content
  otherwise : (grammar y).otherwise = .content
  mark : (grammar y).actionFor ['\\'] = .escape .escape
  closes : (grammar y).actionFor [quote] = .contentAndLeave
  escapes : (grammar y).escapes = some true

/-- A quoted string has a state of its own. -/
theorem exists_quoted (h : quote = '"' ∨ quote = '\x60') :
    ∃ y, upon quote (.enter y) ∈ Grammar.valueOpeners ∧ HoldsQuoted quote y := by
  obtain rfl | rfl := h
  · exact ⟨.quotes, by simp [Grammar.valueOpeners], rfl, rfl, rfl, rfl, rfl, rfl, rfl⟩
  · exact ⟨.backQuotes, by simp [Grammar.valueOpeners], rfl, rfl, rfl, rfl, rfl, rfl, rfl⟩

/-! ## Scanning -/

theorem scan_cons_of_content (h : (grammar x).actionFor [d] = .content) :
    scan maxDepth (d :: text) (x :: outer) = scan maxDepth text (x :: outer) := by
  have hinside : inside maxDepth d (x :: outer) = some (x :: outer) := by
    unfold inside
    simp only [h]
  rw [scan_cons, hinside, Option.bind_some]

/-- A part is opened. -/
theorem scan_cons_of_enter (h : (grammar x).actionFor [d] = .enter y) (hy : y.isPart = true)
    (hroom : (x :: outer).length < maxDepth) :
    scan maxDepth (d :: text) (x :: outer) = scan maxDepth text (y :: x :: outer) := by
  have hinside : inside maxDepth d (x :: outer) = some (y :: x :: outer) := by
    unfold inside
    simp only [h]
    exact if_pos ⟨hy, hroom⟩
  rw [scan_cons, hinside, Option.bind_some]

/-- A part is closed. -/
theorem scan_cons_of_contentAndLeave (h : (grammar y).actionFor [d] = .contentAndLeave)
    (hy : y.isPart = true) (hx : x.resumes = true) :
    scan maxDepth (d :: text) (y :: x :: outer) = scan maxDepth text (x :: outer) := by
  have hinside : inside maxDepth d (y :: x :: outer) = some (x :: outer) := by
    unfold inside
    simp only [h]
    exact if_pos (by simp [hy, hx])
  rw [scan_cons, hinside, Option.bind_some]

/-- An escaped pair. -/
theorem scan_escaped (h : (grammar x).actionFor ['\\'] = .escape .escape)
    (hescapes : grammar.escapesIn (x :: outer) = true) (hx : x.resumes = true)
    (hroom : (x :: outer).length < maxDepth) :
    scan maxDepth ('\\' :: d :: text) (x :: outer) = scan maxDepth text (x :: outer) := by
  have hmark : inside maxDepth '\\' (x :: outer) = some (.escape :: x :: outer) := by
    unfold inside
    simp only [h, hescapes, if_true]
    exact if_pos ⟨rfl, hroom⟩
  rw [scan_cons, hmark, Option.bind_some, scan_cons_of_contentAndLeave (actionFor_escape d) rfl hx]

/-- What stands in quotes is content. -/
theorem scan_of_quotable {depth : Nat} (hy : HoldsQuoted quote y) (h : Quotable quote depth text)
    (hroom : (y :: outer).length + (depth : Int) ≤ maxDepth) :
    scan maxDepth text (y :: outer) = some (y :: outer) := by
  induction h with
  | nil => rfl
  | plain hquote hmark _ ih =>
    have hcontent := actionFor_eq_content hy.keys hy.otherwise
      (by simpa using ⟨hquote, hmark⟩) fun _ => hy.gaps
    rw [scan_cons_of_content hcontent, ih hroom]
  | escaped _ ih =>
    have hescapes : grammar.escapesIn (y :: outer) = true := by
      rw [Graph.escapesIn, hy.escapes]
      rfl
    rw [scan_escaped hy.mark hescapes (StateName.resumes_of_isPart hy.isPart) (by omega), ih hroom]

/-- A closed text leaves open what was open before it. -/
theorem scan_of_closed {depth : Nat} (hx : HoldsValue stops x)
    (hescapes : grammar.escapesIn (x :: outer) = true) (h : Closed stops depth text)
    (hroom : (x :: outer).length + (depth : Int) ≤ maxDepth) :
    scan maxDepth text (x :: outer) = some (x :: outer) := by
  induction h generalizing x outer with
  | nil => rfl
  | plain hopens hstops _ ih =>
    rw [scan_cons_of_content (hx.plain hopens hstops), ih hx hescapes hroom]
  | escaped _ ih =>
    rw [scan_escaped (hx.opener (by simp [Grammar.valueOpeners])) hescapes hx.resumes (by omega),
      ih hx hescapes hroom]
  | @quoted _ _ quote inner text hquote hinner _ ih =>
    obtain ⟨y, hopener, hy⟩ := exists_quoted hquote
    rw [scan_cons_of_enter (hx.opener hopener) hy.isPart (by omega), scan_append,
      scan_of_quotable hy hinner (by simp at hroom ⊢; omega), Option.bind_some,
      scan_cons_of_contentAndLeave hy.closes hy.isPart hx.resumes, ih hx hescapes hroom]
  | @group _ _ opening closing inner text hgroup _ _ ihinner ih =>
    obtain ⟨y, hopener, hpart, hy, hcloses⟩ := exists_group hgroup
    have hinside : scan maxDepth inner (y :: x :: outer) = some (y :: x :: outer) := by
      refine ihinner hy ?_ (by simp at hroom ⊢; omega)
      rw [Graph.escapesIn, hy.escapes]
      exact hescapes
    rw [scan_cons_of_enter (hx.opener hopener) hpart (by omega), scan_append, hinside,
      Option.bind_some, scan_cons_of_contentAndLeave hcloses hpart hx.resumes,
      ih hx hescapes hroom]

end
end CommandLine
