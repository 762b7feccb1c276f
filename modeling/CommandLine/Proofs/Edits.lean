/-
# `CommandLine.Proofs.Edits` — the record of a line as an edit script

An edit keeps a stretch of the typed line and replaces the fragment after it.  A list of edits
determines the text before and after them and the record of the substitutions, and a line is
*edited* when some edits, followed by a rest that both texts share, account for all of it
(`Line.Edited`).  From this follow the laws of the record:

    the fragments stand in the typed line, in order          (`pairwise_record`, `between_record`)
    replacing them gives the substituted line                (`replay_record`)
    outside of the replacements both lines show the same     (`exists_sourceOffset`)

An offset in a replacement is counted back from the end of the fragment.  So the translation goes
back in front of a fragment exactly where the replacement is longer, and if none is, it stays on
the line and in order (`sourceOffset_nonneg`, `sourceOffset_mono`, `le_sourceOffset_iff`).

Turning fragments and replacements round makes either translation out of the other
(`Edit.inverse`), so all is proved for one of them.
-/
import CommandLine.Line
import CommandLine.Text.Offset
import Mathlib.Data.List.Basic

namespace CommandLine

open Text

/-! ## Replaying a record -/

namespace Substitution

/-- The substitution that undoes the substitution. -/
def inverse (s : Substitution) : Substitution :=
  ⟨s.replacement, s.fragment, s.typedIndex, s.substitutedIndex⟩

theorem growth_inverse (s : Substitution) : s.inverse.growth = -s.growth := by
  simp only [growth, inverse]
  omega

/-- The substitution made at its place in the typed line. -/
def applyTo (s : Substitution) (text : Text) : Text :=
  text.replaceAt s.typedIndex.toNat s.fragment.length s.replacement

/-- The offset lies in the replacement. -/
def Covers (s : Substitution) (offset : Int) : Prop :=
  s.substitutedIndex ≤ offset ∧ offset < s.substitutedIndex + s.replacement.length

instance (s : Substitution) (offset : Int) : Decidable (s.Covers offset) :=
  inferInstanceAs (Decidable (_ ∧ _))

end Substitution

/-- The text after the substitutions of a record, made from the last one to the first one, so that
each finds its fragment where the typed line has it. -/
def Line.replay (line : Line) : Text :=
  line.substitutions.foldr Substitution.applyTo line.typed

/-- The typed and the substituted line in each other's place. -/
def Line.inverse (line : Line) : Line :=
  ⟨line.substituted, line.typed, line.substitutions.map Substitution.inverse⟩

theorem Line.totalGrowth_inverse (substitutions : List Substitution) :
    totalGrowth (substitutions.map Substitution.inverse) = -totalGrowth substitutions := by
  induction substitutions with
  | nil => rfl
  | cons s rest ih =>
    show s.inverse.growth + totalGrowth (rest.map Substitution.inverse) =
      -(s.growth + totalGrowth rest)
    rw [ih, Substitution.growth_inverse]
    omega

/-- The translation back on the inverse line is the translation forth. -/
theorem Line.typedOffset_inverse (line : Line) :
    line.inverse.typedOffset = line.substitutedOffset := by
  funext n
  rw [typedOffset, inverse, List.takeWhile_map, totalGrowth_inverse]
  show n - -totalGrowth (line.substitutions.takeWhile fun s => decide (s.typedIndex ≤ n)) = _
  rw [substitutedOffset]
  omega

/-! ## Edits -/

/-- A stretch of text that is kept, and a fragment after it that is replaced. -/
structure Edit where
  /-- The text that is kept. -/
  kept : Text
  /-- The fragment. -/
  fragment : Text
  /-- The text in its place. -/
  replacement : Text

namespace Edit

/-- The text before the edit. -/
def before (e : Edit) : Text := e.kept ++ e.fragment

/-- The text after the edit. -/
def after (e : Edit) : Text := e.kept ++ e.replacement

/-- The edit that undoes the edit. -/
def inverse (e : Edit) : Edit := ⟨e.kept, e.replacement, e.fragment⟩

/-- The text before some edits. -/
def source (edits : List Edit) : Text := edits.flatMap before

/-- The text after some edits. -/
def target (edits : List Edit) : Text := edits.flatMap after

/-- The record of some edits that start at places of the typed and of the substituted line. -/
def record (i j : Nat) : List Edit → List Substitution
  | [] => []
  | e :: edits =>
    ⟨e.fragment, e.replacement, j + e.kept.length, i + e.kept.length⟩ ::
      record (i + e.before.length) (j + e.after.length) edits

/-- The place before some edits that belongs to a place after them, both counted from their start.
In a replacement it is counted back from the end of the fragment. -/
def sourceOffset : List Edit → Int → Int
  | [], x => x
  | e :: edits, x =>
    if x < e.kept.length then x else e.before.length + sourceOffset edits (x - e.after.length)

/-- The place after some edits that belongs to a place before them. -/
def targetOffset (edits : List Edit) : Int → Int := sourceOffset (edits.map inverse)

variable {e : Edit} {edits : List Edit} {i j : Nat} {x y : Int}

@[simp] theorem length_before (e : Edit) :
    e.before.length = e.kept.length + e.fragment.length := List.length_append

@[simp] theorem length_after (e : Edit) :
    e.after.length = e.kept.length + e.replacement.length := List.length_append

@[simp] theorem before_inverse (e : Edit) : e.inverse.before = e.after := rfl

@[simp] theorem after_inverse (e : Edit) : e.inverse.after = e.before := rfl

theorem source_cons (e : Edit) (edits : List Edit) :
    source (e :: edits) = e.before ++ source edits :=
  List.flatMap_cons

theorem target_cons (e : Edit) (edits : List Edit) :
    target (e :: edits) = e.after ++ target edits :=
  List.flatMap_cons

@[simp] theorem source_inverse (edits : List Edit) : source (edits.map inverse) = target edits := by
  rw [source, List.flatMap_map]
  rfl

@[simp] theorem target_inverse (edits : List Edit) : target (edits.map inverse) = source edits := by
  rw [target, List.flatMap_map]
  rfl

theorem record_inverse (edits : List Edit) (i j : Nat) :
    (record i j edits).map Substitution.inverse = record j i (edits.map inverse) := by
  induction edits generalizing i j with
  | nil => rfl
  | cons e edits ih =>
    simp only [record, List.map_cons, ih]
    rfl

theorem record_append (first second : List Edit) (i j : Nat) :
    record i j (first ++ second) =
      record i j first ++ record (i + (source first).length) (j + (target first).length) second := by
  induction first generalizing i j with
  | nil => rfl
  | cons e first ih =>
    rw [List.cons_append, record, ih, record, source_cons, target_cons, List.length_append,
      List.length_append, Nat.add_assoc, Nat.add_assoc]
    rfl

/-- The record says how much longer the text has become. -/
theorem totalGrowth_record (edits : List Edit) (i j : Nat) :
    Line.totalGrowth (record i j edits) = (target edits).length - (source edits).length := by
  induction edits generalizing i j with
  | nil => rfl
  | cons e edits ih =>
    show Substitution.growth _ + Line.totalGrowth (record _ _ edits) = _
    rw [ih, source_cons, target_cons, List.length_append, List.length_append, length_before,
      length_after, Substitution.growth]
    push_cast
    omega

/-! ## The fragments -/

theorem le_of_mem_record {s : Substitution} (h : s ∈ record i j edits) :
    (i : Int) ≤ s.typedIndex ∧ (j : Int) ≤ s.substitutedIndex := by
  induction edits generalizing i j with
  | nil => cases h
  | cons e edits ih =>
    rcases List.mem_cons.1 h with rfl | h
    · simp only
      omega
    · have := ih h
      omega

/-- The replacements stand in the text after the edits. -/
theorem add_length_le_of_mem_record {s : Substitution} (h : s ∈ record i j edits) :
    s.substitutedIndex + s.replacement.length ≤ j + (target edits).length := by
  induction edits generalizing i j with
  | nil => cases h
  | cons e edits ih =>
    rw [target_cons, List.length_append, length_after]
    rcases List.mem_cons.1 h with rfl | h
    · simp only
      omega
    · have := ih h
      rw [length_after] at this
      omega

/-- The fragments stand one after the other. -/
theorem pairwise_record (hne : ∀ e ∈ edits, e.fragment ≠ []) :
    (record i j edits).Pairwise fun (s t : Substitution) =>
      s.typedIndex < t.typedIndex ∧ s.typedIndex + (s.fragment.length : Int) ≤ t.typedIndex := by
  induction edits generalizing i j with
  | nil => exact .nil
  | cons e edits ih =>
    have hpos := List.length_pos_iff.2 (hne e List.mem_cons_self)
    refine .cons (fun t ht => ?_) (ih fun d hd => hne d (List.mem_cons_of_mem _ hd))
    have := (le_of_mem_record ht).1
    rw [length_before] at this
    push_cast at this
    simp only
    omega

/-- Each fragment stands in the typed line where the record has it. -/
theorem between_record {head rest : Text} {s : Substitution}
    (h : s ∈ record head.length j edits) :
    between (head ++ source edits ++ rest) s.typedIndex (s.typedIndex + s.fragment.length) =
      s.fragment := by
  induction edits generalizing head j with
  | nil => cases h
  | cons e edits ih =>
    rcases List.mem_cons.1 h with rfl | h
    · have hstart : ((head.length : Int) + e.kept.length) = ((head ++ e.kept).length : Nat) := by
        simp
      simp only [hstart]
      rw [between_natCast_add]
      rw [source_cons, before, ← List.append_assoc head, ← List.append_assoc head,
        List.append_assoc _ e.fragment, List.append_assoc _ (e.fragment ++ _),
        List.append_assoc e.fragment, List.drop_left, List.take_left]
    · have hhead : head.length + e.before.length = (head ++ e.before).length := by simp
      rw [hhead] at h
      rw [source_cons, ← List.append_assoc]
      exact ih h

theorem replaceAt_append (a b c replacement : Text) :
    (a ++ b ++ c).replaceAt a.length b.length replacement = a ++ replacement ++ c := by
  rw [replaceAt, List.append_assoc a b, List.take_left, ← List.append_assoc, ← List.length_append,
    List.drop_left]

/-- Replacing the fragments by what was recorded makes the text after the edits. -/
theorem replay_record (head rest : Text) (edits : List Edit) (j : Nat) :
    (record head.length j edits).foldr Substitution.applyTo (head ++ source edits ++ rest) =
      head ++ target edits ++ rest := by
  induction edits generalizing head j with
  | nil => rfl
  | cons e edits ih =>
    have hhead : head.length + e.before.length = (head ++ e.before).length := by simp
    have hindex : ((head.length : Int) + e.kept.length).toNat = (head ++ e.kept).length := by
      rw [List.length_append]
      omega
    have hbefore : head ++ e.before ++ target edits ++ rest =
        head ++ e.kept ++ e.fragment ++ (target edits ++ rest) := by
      simp only [before, List.append_assoc]
    rw [record, List.foldr_cons, hhead, source_cons, ← List.append_assoc head, ih, hbefore]
    simp only [Substitution.applyTo, hindex, replaceAt_append]
    simp only [target_cons, after, List.append_assoc]

/-! ## Offsets -/

theorem sourceOffset_of_neg (edits : List Edit) (h : x < 0) : sourceOffset edits x = x := by
  cases edits with
  | nil => rfl
  | cons e edits => exact if_pos (by omega)

theorem sourceOffset_of_lt (edits : List Edit) (h : x < e.kept.length) :
    sourceOffset (e :: edits) x = x := if_pos h

theorem sourceOffset_of_le (edits : List Edit) (h : e.kept.length ≤ x) :
    sourceOffset (e :: edits) x = e.before.length + sourceOffset edits (x - e.after.length) :=
  if_neg (by omega)

theorem back_record (edits : List Edit) (i j : Nat) (n : Int) :
    n - Line.totalGrowth ((record i j edits).takeWhile fun s => s.substitutedIndex ≤ n) =
      sourceOffset edits (n - j) + j := by
  induction edits generalizing i j with
  | nil =>
    show n - 0 = n - j + j
    omega
  | cons e edits ih =>
    by_cases h : (j : Int) + e.kept.length ≤ n
    · have := ih (i + e.before.length) (j + e.after.length)
      rw [record, List.takeWhile_cons_of_pos (by simpa using h),
        sourceOffset_of_le edits (by omega)]
      show n - (Substitution.growth _ + Line.totalGrowth (List.takeWhile _ _)) = _
      rw [show n - (j : Int) - e.after.length = n - (j + e.after.length : Nat) by push_cast; omega]
      simp only [Substitution.growth, length_before, length_after] at this ⊢
      push_cast at this ⊢
      omega
    · rw [record, List.takeWhile_cons_of_neg (by simpa using h), sourceOffset_of_lt edits (by omega)]
      show n - 0 = n - j + j
      omega

/-! ### Places on the line -/

theorem sourceOffset_of_target_le (edits : List Edit) (h : (target edits).length ≤ x) :
    sourceOffset edits x = (source edits).length + (x - (target edits).length) := by
  induction edits generalizing x with
  | nil =>
    show x = 0 + (x - 0)
    omega
  | cons e edits ih =>
    rw [target_cons, List.length_append, length_after] at h
    push_cast at h
    rw [sourceOffset_of_le edits (by omega), ih (by rw [length_after]; omega), source_cons,
      target_cons, List.length_append, List.length_append]
    push_cast
    omega

theorem sourceOffset_le (edits : List Edit) (h : x ≤ (target edits).length) :
    sourceOffset edits x ≤ (source edits).length := by
  induction edits generalizing x with
  | nil => exact h
  | cons e edits ih =>
    rw [target_cons, List.length_append] at h
    rw [source_cons, List.length_append]
    by_cases hx : x < e.kept.length
    · rw [sourceOffset_of_lt edits hx, length_before]
      push_cast
      omega
    · have := ih (x := x - e.after.length) (by push_cast at h; omega)
      rw [sourceOffset_of_le edits (by omega)]
      push_cast
      omega

/-- No replacement is longer than its fragment. -/
def NoneLonger (edits : List Edit) : Prop :=
  ∀ e ∈ edits, e.replacement.length ≤ e.fragment.length

theorem NoneLonger.tail (h : NoneLonger (e :: edits)) : NoneLonger edits :=
  fun d hd => h d (List.mem_cons_of_mem _ hd)

theorem sourceOffset_nonneg (h : NoneLonger edits) (hx : 0 ≤ x) : 0 ≤ sourceOffset edits x := by
  induction edits generalizing x with
  | nil => exact hx
  | cons e edits ih =>
    have he := h e List.mem_cons_self
    by_cases hkept : x < e.kept.length
    · rwa [sourceOffset_of_lt edits hkept]
    · rw [sourceOffset_of_le edits (by omega)]
      by_cases hneg : x - e.after.length < 0
      · rw [sourceOffset_of_neg edits hneg, length_before, length_after]
        push_cast
        omega
      · have := ih h.tail (x := x - e.after.length) (by omega)
        omega

/-- Past the kept text an edit that makes nothing longer leads behind the kept text. -/
theorem le_sourceOffset (h : NoneLonger (e :: edits)) (hx : e.kept.length ≤ x) :
    e.kept.length ≤ sourceOffset (e :: edits) x := by
  have he := h e List.mem_cons_self
  rw [sourceOffset_of_le edits hx]
  by_cases hneg : x - e.after.length < 0
  · rw [sourceOffset_of_neg edits hneg, length_before, length_after]
    push_cast
    omega
  · have := sourceOffset_nonneg h.tail (x := x - e.after.length) (by omega)
    rw [length_before]
    push_cast
    omega

theorem sourceOffset_mono (h : NoneLonger edits) (hxy : x ≤ y) :
    sourceOffset edits x ≤ sourceOffset edits y := by
  induction edits generalizing x y with
  | nil => exact hxy
  | cons e edits ih =>
    by_cases hx : x < e.kept.length
    · rw [sourceOffset_of_lt edits hx]
      by_cases hy : y < e.kept.length
      · rwa [sourceOffset_of_lt edits hy]
      · have := le_sourceOffset h (x := y) (by omega)
        omega
    · have := ih h.tail (x := x - e.after.length) (y := y - e.after.length) (by omega)
      rw [sourceOffset_of_le edits (by omega), sourceOffset_of_le edits (by omega)]
      omega

/-- If no replacement is longer than its fragment, the start of each one leads behind the start of
its fragment. -/
theorem typedIndex_le_sourceOffset {s : Substitution} (h : NoneLonger edits)
    (hs : s ∈ record i j edits) :
    s.typedIndex ≤ i + sourceOffset edits (s.substitutedIndex - j) := by
  induction edits generalizing i j with
  | nil => cases hs
  | cons e edits ih =>
    rcases List.mem_cons.1 hs with rfl | hs
    · have := le_sourceOffset h (x := e.kept.length) (Int.le_refl _)
      simp only [show (j : Int) + e.kept.length - j = e.kept.length by omega]
      omega
    · have hle := (le_of_mem_record hs).2
      have := ih h.tail hs
      rw [length_after] at hle
      push_cast at hle this
      rw [sourceOffset_of_le edits (by omega)]
      rw [← Int.sub_sub] at this
      omega

/-- The start of a replacement that is longer than its fragment leads in front of the fragment. -/
theorem sourceOffset_lt_typedIndex {s : Substitution} (hs : s ∈ record i j edits)
    (hlong : s.fragment.length < s.replacement.length) :
    i + sourceOffset edits (s.substitutedIndex - j) < s.typedIndex := by
  induction edits generalizing i j with
  | nil => cases hs
  | cons e edits ih =>
    rcases List.mem_cons.1 hs with rfl | hs
    · simp only at hlong
      simp only [show (j : Int) + e.kept.length - j = e.kept.length by omega]
      rw [sourceOffset_of_le edits (Int.le_refl _), length_after, length_before,
        sourceOffset_of_neg edits (by push_cast; omega)]
      push_cast
      omega
    · have hle := (le_of_mem_record hs).2
      have := ih hs
      rw [length_after] at hle
      push_cast at hle this
      rw [sourceOffset_of_le edits (by omega)]
      rw [← Int.sub_sub] at this
      omega

theorem noneLonger_of_record
    (h : ∀ s ∈ record i j edits, s.replacement.length ≤ s.fragment.length) : NoneLonger edits := by
  induction edits generalizing i j with
  | nil => exact fun _ he => nomatch he
  | cons e edits ih =>
    have hrest : NoneLonger edits := ih fun s hs => h s (List.mem_cons_of_mem _ hs)
    exact List.forall_mem_cons.2 ⟨h _ List.mem_cons_self, hrest⟩

/-! ### Places outside of the replacements -/

/-- Outside of the replacements there is a place before the edits that shows the same character,
and it leads back. -/
theorem exists_sourceOffset (rest : Text) {n : Nat} (hn : n ≤ (target edits ++ rest).length)
    (hout : ∀ s ∈ record i j edits, ¬ s.Covers (j + n)) :
    ∃ k : Nat, k ≤ (source edits ++ rest).length ∧ sourceOffset edits n = k ∧
      (source edits ++ rest)[k]? = (target edits ++ rest)[n]? ∧ targetOffset edits k = n := by
  induction edits generalizing i j n with
  | nil => exact ⟨n, hn, rfl, rfl, rfl⟩
  | cons e edits ih =>
    rw [source_cons, target_cons, List.append_assoc, List.append_assoc] at *
    by_cases hkept : n < e.kept.length
    · refine ⟨n, ?_, sourceOffset_of_lt edits (by omega), ?_, sourceOffset_of_lt _ ?_⟩
      · rw [List.length_append, length_before]
        omega
      · rw [before, after, List.append_assoc, List.append_assoc, List.getElem?_append_left hkept,
          List.getElem?_append_left hkept]
      · show (n : Int) < e.kept.length
        omega
    · have hpast : e.after.length ≤ n := by
        have := hout _ List.mem_cons_self
        simp only [Substitution.Covers] at this
        rw [length_after]
        omega
      obtain ⟨m, rfl⟩ := Nat.exists_eq_add_of_le hpast
      rw [List.length_append] at hn
      obtain ⟨k, hk, hsource, hchar, htarget⟩ := ih (i := i + e.before.length)
        (j := j + e.after.length) (n := m) (by omega) fun s hs => by
          have := hout s (List.mem_cons_of_mem _ hs)
          rwa [Int.natCast_add, Int.add_assoc, ← Int.natCast_add]
      refine ⟨e.before.length + k, ?_, ?_, ?_, ?_⟩
      · rw [List.length_append]
        omega
      · rw [sourceOffset_of_le edits (by omega),
          show ((e.after.length + m : Nat) : Int) - e.after.length = m by omega, hsource]
        rfl
      · rw [List.getElem?_append_right (Nat.le_add_right _ k), Nat.add_sub_cancel_left, hchar,
          List.getElem?_append_right (Nat.le_add_right _ m), Nat.add_sub_cancel_left]
      · have hle : (e.inverse.kept.length : Int) ≤ (e.before.length + k : Nat) := by
          show (e.kept.length : Int) ≤ _
          rw [length_before]
          omega
        rw [targetOffset, List.map_cons, sourceOffset_of_le _ hle, before_inverse, after_inverse,
          show ((e.before.length + k : Nat) : Int) - e.before.length = k by omega]
        rw [targetOffset] at htarget
        rw [htarget]
        rfl

end Edit

/-! ## Edited lines -/

open Edit

/-- The edits, followed by a rest that both texts share, account for all of a line. -/
structure Line.Edited (line : Line) (edits : List Edit) (rest : Text) : Prop where
  typed : line.typed = source edits ++ rest
  substituted : line.substituted = target edits ++ rest
  substitutions : line.substitutions = Edit.record 0 0 edits

/-- The record of a line is a faithful edit script. -/
structure Line.Faithful (line : Line) : Prop where
  /-- The fragments stand one after the other, and none reaches into the next one. -/
  ordered : line.substitutions.Pairwise fun (s t : Substitution) =>
    s.typedIndex < t.typedIndex ∧ s.typedIndex + (s.fragment.length : Int) ≤ t.typedIndex
  /-- Each fragment is the text of the typed line at its place. -/
  placed : ∀ s ∈ line.substitutions, 0 ≤ s.typedIndex ∧
    between line.typed s.typedIndex (s.typedIndex + s.fragment.length) = s.fragment
  /-- Replacing the fragments makes the substituted line. -/
  replayed : line.replay = line.substituted
  /-- Outside of the replacements offsets lead to the same character, or to the end of both texts,
  and back again. -/
  matched : ∀ n : Nat, n ≤ line.substituted.length →
    (∀ s ∈ line.substitutions, ¬ s.Covers n) →
    ∃ k : Nat, k ≤ line.typed.length ∧ line.typedOffset n = k ∧
      line.typed[k]? = line.substituted[n]? ∧ line.substitutedOffset k = n

/-- A translation of the offsets of a text with replacements stays on the text in which the
fragments are: it keeps to that text and to the order of the offsets, and from the start of a
replacement on nothing leads in front of its fragment. -/
structure StaysOnLine (translate : Int → Int) (substitutions : List Substitution)
    (substituted typed : Text) : Prop where
  within : ∀ n : Nat, n ≤ substituted.length → 0 ≤ translate n ∧ translate n ≤ typed.length
  monotone : ∀ m n : Nat, m ≤ n → n ≤ substituted.length → translate m ≤ translate n
  behind : ∀ s ∈ substitutions, ∀ n : Nat, n ≤ substituted.length → s.substitutedIndex ≤ n →
    s.typedIndex ≤ translate n

namespace Line.Edited

variable {line : Line} {edits : List Edit} {rest : Text}

theorem typedOffset_eq (h : line.Edited edits rest) (n : Int) :
    line.typedOffset n = sourceOffset edits n := by
  have := back_record edits 0 0 n
  rw [typedOffset, h.substitutions, this]
  simp

/-- Nothing is edited in the beginning. -/
theorem ofText (text : Text) : (Line.ofText text).Edited [] text := ⟨rfl, rfl, rfl⟩

/-- A substitution behind the edits is a further edit. -/
theorem substitute {kept fragment after : Text} (h : line.Edited edits (kept ++ fragment ++ after))
    (replacement : Text) :
    (line.substitute fragment replacement (target edits ++ kept).length).Edited
      (edits ++ [⟨kept, fragment, replacement⟩]) after where
  typed := by
    rw [typed_substitute, h.typed, source, source, List.flatMap_append]
    simp [Edit.before]
  substituted := by
    have hsplit : line.substituted = target edits ++ kept ++ fragment ++ after := by
      rw [h.substituted]
      simp only [List.append_assoc]
    rw [substituted_substitute, hsplit, replaceAt_append, target, target, List.flatMap_append]
    simp [Edit.after]
  substitutions := by
    show line.substitutions ++ [_] = _
    rw [record_append, h.substitutions, totalGrowth_record]
    refine congrArg (fun s => Edit.record 0 0 edits ++ [s]) ?_
    simp only [List.length_append, Substitution.mk.injEq, true_and]
    omega

/-- The edited line with typed and substituted line in each other's place. -/
theorem inverse (h : line.Edited edits rest) :
    line.inverse.Edited (edits.map Edit.inverse) rest where
  typed := by simpa [Line.inverse] using h.substituted
  substituted := by simpa [Line.inverse] using h.typed
  substitutions := by rw [Line.inverse, h.substitutions, record_inverse]

theorem substitutedOffset_eq (h : line.Edited edits rest) (n : Int) :
    line.substitutedOffset n = targetOffset edits n := by
  rw [← typedOffset_inverse, h.inverse.typedOffset_eq, targetOffset]

/-- The record of an edited line is a faithful edit script. -/
theorem faithful (h : line.Edited edits rest) (hne : ∀ e ∈ edits, e.fragment ≠ []) :
    line.Faithful where
  ordered := by
    rw [h.substitutions]
    exact pairwise_record hne
  placed := by
    intro s hs
    rw [h.substitutions] at hs
    have hstart : s ∈ Edit.record ([] : Text).length 0 edits := hs
    rw [h.typed]
    exact ⟨(le_of_mem_record hs).1, between_record hstart⟩
  replayed := by
    rw [replay, h.substitutions, h.typed, h.substituted]
    exact replay_record [] rest edits 0
  matched := by
    intro n hn hout
    rw [h.substituted] at hn ⊢
    rw [h.substitutions] at hout
    rw [h.typed, h.typedOffset_eq]
    simp only [h.substitutedOffset_eq]
    exact exists_sourceOffset rest hn (j := 0) (by simpa using hout)

/-- The translation back stays on the line exactly if no replacement is longer than its
fragment. -/
theorem staysOnLine_iff (h : line.Edited edits rest) :
    StaysOnLine line.typedOffset line.substitutions line.substituted line.typed ↔
      ∀ s ∈ line.substitutions, s.replacement.length ≤ s.fragment.length := by
  constructor
  · intro hstays s hs
    by_contra hlong
    have hrecord := hs
    rw [h.substitutions] at hrecord
    obtain ⟨n, hn⟩ := Int.eq_ofNat_of_zero_le (le_of_mem_record hrecord).2
    have hlt := sourceOffset_lt_typedIndex hrecord (by omega)
    have hle := hstays.behind s hs n ?_ (by omega)
    · rw [h.typedOffset_eq, ← hn] at hle
      simp only [Int.natCast_zero, Int.zero_add, Int.sub_zero] at hlt
      omega
    · have := add_length_le_of_mem_record hrecord
      rw [h.substituted, List.length_append]
      omega
  · intro hshort
    have hnone : NoneLonger edits := by
      rw [h.substitutions] at hshort
      exact noneLonger_of_record hshort
    have hmono : ∀ m n : Int, m ≤ n → line.typedOffset m ≤ line.typedOffset n := by
      intro m n hmn
      rw [h.typedOffset_eq, h.typedOffset_eq]
      exact sourceOffset_mono hnone hmn
    refine ⟨fun n hn => ⟨?_, ?_⟩, fun m n hmn _ => hmono m n (by omega), fun s hs n _ hsn => ?_⟩
    · rw [h.typedOffset_eq]
      exact sourceOffset_nonneg hnone (by omega)
    · rw [h.typedOffset_eq, h.typed, List.length_append]
      rw [h.substituted, List.length_append] at hn
      by_cases hedits : (n : Int) ≤ (target edits).length
      · have := sourceOffset_le edits hedits
        omega
      · rw [sourceOffset_of_target_le edits (by omega)]
        omega
    · have hstart := hs
      rw [h.substitutions] at hstart
      have := typedIndex_le_sourceOffset hnone hstart
      rw [h.typedOffset_eq] at *
      have := hmono _ _ hsn
      rw [h.typedOffset_eq, h.typedOffset_eq] at this
      simp only [Int.natCast_zero, Int.zero_add, Int.sub_zero] at *
      omega

/-- The translation forth stays on the line exactly if no replacement is shorter than its
fragment. -/
theorem staysOnLine_inverse_iff (h : line.Edited edits rest) :
    StaysOnLine line.substitutedOffset (line.substitutions.map Substitution.inverse) line.typed
        line.substituted ↔
      ∀ s ∈ line.substitutions, s.fragment.length ≤ s.replacement.length := by
  have := h.inverse.staysOnLine_iff
  rw [typedOffset_inverse] at this
  refine this.trans ?_
  rw [Line.inverse]
  simp [Substitution.inverse]

end Line.Edited
end CommandLine
