/-
# `CommandLine.Proofs.ByteNumerals` — the texts of byte strings

A byte string is written as tokens with commas between them.  A token is blank, or a numeral with
blanks around it.  What the numerals stand for is said by their digits and not by the reader:

    Spells        a text spells digits, in any script, with at most one underscore between two
    IsNumeral     a numeral of a byte: decimal from -128 to 127, or hexadecimal
    IsToken       a token, with the byte that it stands for if it is not blank
    readBytes     reads the tokens one after the other, and the first error is the error

Leading zeros are digits like others, and so are the letters from A to F in either case.
-/
import CommandLine.Value.Bytes

namespace CommandLine

namespace Text

/-! ## Digits -/

/-- A text that spells digits, with at most one underscore between two of them. -/
inductive Spells (digit? : Char → Option Nat) : List Nat → Text → Prop
  | last {c : Char} {d : Nat} : digit? c = some d → Spells digit? [d] [c]
  | next {c : Char} {d : Nat} {digits : List Nat} {text : Text} : digit? c = some d →
      Spells digit? digits text → Spells digit? (d :: digits) (c :: text)
  | spaced {c : Char} {d : Nat} {digits : List Nat} {text : Text} : digit? c = some d →
      Spells digit? digits text → Spells digit? (d :: digits) (c :: '_' :: text)

/-- The number that digits stand for, with a number before them. -/
def ofDigits (base : Nat) (digits : List Nat) (before : Nat) : Nat :=
  digits.foldl (fun value d => value * base + d) before

namespace Spells

variable {digit? : Char → Option Nat} {digits : List Nat} {text : Text}

theorem mem (h : Spells digit? digits text) {c : Char} (hc : c ∈ text) :
    c = '_' ∨ ∃ d, digit? c = some d := by
  induction h with
  | last hd =>
    rw [List.mem_singleton] at hc
    exact .inr ⟨_, hc ▸ hd⟩
  | next hd _ ih =>
    rcases List.mem_cons.1 hc with rfl | hc
    · exact .inr ⟨_, hd⟩
    · exact ih hc
  | spaced hd _ ih =>
    rcases List.mem_cons.1 hc with rfl | hc
    · exact .inr ⟨_, hd⟩
    · rcases List.mem_cons.1 hc with rfl | hc
      · exact .inl rfl
      · exact ih hc

theorem not_mem (h : Spells digit? digits text) {c : Char} (hc : c ≠ '_')
    (hdigit : digit? c = none) : c ∉ text := by
  intro hmem
  rcases h.mem hmem with rfl | ⟨d, hd⟩
  · exact hc rfl
  · rw [hdigit] at hd
    cases hd

theorem exists_cons (h : Spells digit? digits text) :
    ∃ c rest d, text = c :: rest ∧ digit? c = some d := by
  cases h with
  | last hd => exact ⟨_, _, _, rfl, hd⟩
  | next hd _ => exact ⟨_, _, _, rfl, hd⟩
  | spaced hd _ => exact ⟨_, _, _, rfl, hd⟩

theorem readDigits_cons {c : Char} {d : Nat} (hd : digit? c = some d) (base value count : Nat)
    (rest : Text) : readDigits digit? base value count (c :: rest) =
      readDigits digit? base (value * base + d) (count + 1) rest := by
  rw [readDigits.eq_def]
  simp [hd]

/-- An underscore before a digit is skipped. -/
theorem readDigits_underscore (h : Spells digit? digits text) (hunderscore : digit? '_' = none)
    (base value count : Nat) : readDigits digit? base value count ('_' :: text) =
      readDigits digit? base value count text := by
  obtain ⟨c, rest, d, rfl, hd⟩ := h.exists_cons
  simp [readDigits, readDigits_cons hd, hunderscore, hd]

/-- A run of digits after others. -/
theorem readDigits_eq (h : Spells digit? digits text) (hunderscore : digit? '_' = none)
    (base value count : Nat) : readDigits digit? base value count text =
      some (ofDigits base digits value, count + digits.length) := by
  induction h generalizing value count with
  | last hd => exact readDigits_cons hd base value count []
  | next hd _ ih =>
    rw [readDigits_cons hd, ih, List.length_cons, Nat.add_assoc, Nat.add_comm 1]
    rfl
  | spaced hd hrest ih =>
    rw [readDigits_cons hd, hrest.readDigits_underscore hunderscore, ih, List.length_cons,
      Nat.add_assoc, Nat.add_comm 1]
    rfl

/-- A text that spells digits is read as the number that they stand for. -/
theorem readNumeral_eq (h : Spells digit? digits text) (hunderscore : digit? '_' = none)
    (base : Nat) :
    readNumeral digit? base text = some (ofDigits base digits 0, digits.length) := by
  obtain ⟨c, rest, d, rfl, hd⟩ := h.exists_cons
  have hread := h.readDigits_eq hunderscore base 0 0
  rw [readDigits_cons hd, Nat.zero_mul, Nat.zero_add, Nat.zero_add] at hread
  rw [readNumeral, hd, Option.bind_some, hread, Nat.zero_add]

/-- A text that holds digits only spells them. -/
theorem of_mapM (h : text.mapM digit? = some digits) (hsome : text ≠ []) :
    Spells digit? digits text := by
  induction text generalizing digits with
  | nil => exact absurd rfl hsome
  | cons c rest ih =>
    simp only [List.mapM_cons, Option.pure_def, Option.bind_eq_bind, Option.bind_eq_some_iff,
      Option.some.injEq] at h
    obtain ⟨d, hd, others, hothers, rfl⟩ := h
    cases rest with
    | nil =>
      cases hothers
      exact .last hd
    | cons next rest => exact .next hd (ih hothers (List.cons_ne_nil _ _))

theorem zeros (hzero : digit? '0' = some 0) (h : Spells digit? digits text) (count : Nat) :
    Spells digit? (List.replicate count 0 ++ digits) (List.replicate count '0' ++ text) := by
  induction count with
  | zero => exact h
  | succ count ih => exact .next hzero ih

end Spells

/-- Zeros before the digits do not count. -/
theorem ofDigits_zeros (base count : Nat) (digits : List Nat) :
    ofDigits base (List.replicate count 0 ++ digits) 0 = ofDigits base digits 0 := by
  induction count with
  | zero => rfl
  | succ count ih => simpa [ofDigits, List.replicate_succ] using ih

/-! ## Digits are no blanks -/

/-- The codes of the blanks. -/
def blankCodes : List Nat :=
  [9, 10, 11, 12, 13, 28, 29, 30, 31, 32, 0x85, 0xA0, 0x1680, 0x2000, 0x2001, 0x2002, 0x2003,
   0x2004, 0x2005, 0x2006, 0x2007, 0x2008, 0x2009, 0x200A, 0x2028, 0x2029, 0x202F, 0x205F, 0x3000]

theorem mem_blankCodes {c : Char} (h : isBlank c = true) : c.toNat ∈ blankCodes := by
  simp only [isBlank, Bool.or_eq_true, Bool.and_eq_true, decide_eq_true_eq, beq_iff_eq] at h
  simp only [blankCodes, List.mem_cons, List.not_mem_nil, or_false]
  omega

theorem decimalDigit?_of_isBlank {c : Char} (h : isBlank c = true) : decimalDigit? c = none := by
  have hnone : ∀ code ∈ blankCodes,
      (zeroDigits.find? fun first => first ≤ code && code < first + 10) = none := by decide
  rw [decimalDigit?, hnone _ (mem_blankCodes h)]
  rfl

theorem hexDigit?_of_isBlank {c : Char} (h : isBlank c = true) : hexDigit? c = none := by
  have hletter : ∀ code ∈ blankCodes, ¬ (97 ≤ code ∧ code ≤ 102) ∧ ¬ (65 ≤ code ∧ code ≤ 70) := by
    decide
  obtain ⟨hlower, hupper⟩ := hletter _ (mem_blankCodes h)
  exact (if_neg hlower).trans ((if_neg hupper).trans (decimalDigit?_of_isBlank h))

/-! ## Marks and signs -/

theorem hexBody?_eq_none {text : Text} (hlower : 'x' ∉ text) (hupper : 'X' ∉ text) :
    hexBody? text = none := by
  unfold hexBody?
  split
  · exact absurd (by simp) hlower
  · exact absurd (by simp) hupper
  · rfl

end Text

namespace Value

open Text

/-! ## Numerals -/

/-- A sign that can stand before the digits of a number. -/
inductive IsSign : Int → Text → Prop
  | none {n : Int} : 0 ≤ n → IsSign n []
  | plus {n : Int} : 0 ≤ n → IsSign n ['+']
  | minus {n : Int} : n ≤ 0 → IsSign n ['-']

/-- A numeral of a byte.  A decimal one stands for the number from -128 to 127 that has the same
remainder modulo 256, a hexadecimal one for the byte itself. -/
inductive IsNumeral (octet : UInt8) : Text → Prop
  | decimal {n : Int} {sign : Text} {digits : List Nat} {text : Text} :
      -128 ≤ n → n ≤ 127 → (octet.toNat : Int) = n % 256 → IsSign n sign →
      Spells decimalDigit? digits text → ofDigits 10 digits 0 = n.natAbs →
      digits.length ≤ decimalLimit → IsNumeral octet (sign ++ text)
  | hexadecimal {mark : Char} {underscore : Text} {digits : List Nat} {text : Text} :
      mark = 'x' ∨ mark = 'X' → underscore = [] ∨ underscore = ['_'] →
      Spells hexDigit? digits text → ofDigits 16 digits 0 = octet.toNat →
      IsNumeral octet ('0' :: mark :: (underscore ++ text))

theorem readDecimal_of_spells {n : Int} {sign text : Text} {digits : List Nat}
    (hsign : IsSign n sign) (h : Spells decimalDigit? digits text)
    (hvalue : ofDigits 10 digits 0 = n.natAbs) (hcount : digits.length ≤ decimalLimit) :
    readDecimal (sign ++ text) = some n := by
  have hread : readUnsigned text = some n.natAbs := by
    rw [readUnsigned, h.readNumeral_eq rfl, hvalue]
    exact if_pos hcount
  cases hsign with
  | none hn =>
    have hplus : '+' ∉ text := h.not_mem (by decide) rfl
    have hminus : '-' ∉ text := h.not_mem (by decide) rfl
    rw [List.nil_append]
    unfold readDecimal
    split
    · exact absurd (by simp) hplus
    · exact absurd (by simp) hminus
    · rw [hread]
      exact congrArg some (Int.natAbs_of_nonneg hn)
  | plus hn =>
    have hread := congrArg (Option.map Int.ofNat) hread
    exact hread.trans (congrArg some (Int.natAbs_of_nonneg hn))
  | minus hn =>
    have hread := congrArg (Option.map fun k => -Int.ofNat k) hread
    have hneg : -(n.natAbs : Int) = n := by rw [Int.ofNat_natAbs_of_nonpos hn, Int.neg_neg]
    exact hread.trans (congrArg some hneg)

theorem readHexBody_of_spells {underscore text : Text} {digits : List Nat}
    (hunderscore : underscore = [] ∨ underscore = ['_']) (h : Spells hexDigit? digits text) :
    readHexBody (underscore ++ text) = some (ofDigits 16 digits 0) := by
  have hread := h.readNumeral_eq rfl 16
  rcases hunderscore with rfl | rfl
  · obtain ⟨c, rest, d, rfl, hd⟩ := h.exists_cons
    have hc : c ≠ '_' := by
      rintro rfl
      have hnone : hexDigit? '_' = none := rfl
      rw [hnone] at hd
      cases hd
    simp [readHexBody, hread, hc]
  · simp [readHexBody, hread]

/-- A numeral of a byte is read as the byte. -/
theorem IsNumeral.readByte {octet : UInt8} {numeral : Text} (h : IsNumeral octet numeral)
    (offset : Int) : readByte offset numeral = .ok octet := by
  have hoctet : UInt8.ofNat octet.toNat = octet := UInt8.ofNat_toNat
  cases h with
  | @decimal n sign digits text hlow hhigh hmod hsign htext hvalue hcount =>
    have hmark : hexBody? (sign ++ text) = none := by
      have hx : ∀ c : Char, c ≠ '_' → c ≠ '+' → c ≠ '-' → decimalDigit? c = none →
          c ∉ sign ++ text := by
        intro c hunderscore hplus hminus hdigit
        have hrest := htext.not_mem hunderscore hdigit
        cases hsign <;> simp_all
      exact hexBody?_eq_none (hx 'x' (by decide) (by decide) (by decide) rfl)
        (hx 'X' (by decide) (by decide) (by decide) rfl)
    have hnumber : byteNumber? (sign ++ text) = some (n, true) := by
      rw [byteNumber?, hmark, readDecimal_of_spells hsign htext hvalue hcount]
      simp [hlow, hhigh]
    simp [Value.readByte, hnumber, ← hmod]
  | @hexadecimal mark underscore digits text hmark hunderscore htext hvalue =>
    have hbody : hexBody? ('0' :: mark :: (underscore ++ text)) = some (underscore ++ text) := by
      rcases hmark with rfl | rfl <;> rfl
    have hfits : octet.toNat ≤ 255 := Nat.le_of_lt_succ octet.toNat_lt
    have hnumber : byteNumber? ('0' :: mark :: (underscore ++ text)) =
        some ((octet.toNat : Int), true) := by
      rw [byteNumber?, hbody]
      simp [readHexBody_of_spells hunderscore htext, hvalue]
      omega
    have hmod : (octet.toNat : Int) % 256 = octet.toNat := Int.emod_eq_of_lt (by omega) (by omega)
    simp [Value.readByte, hnumber, hmod]

/-- No blank, no comma and no closing brace stands in a numeral. -/
theorem IsNumeral.not_mem {octet : UInt8} {numeral : Text} (h : IsNumeral octet numeral) {c : Char}
    (hc : isBlank c = true ∨ c = ',' ∨ c = '}') : c ∉ numeral := by
  have hmark : ∀ mark ∈ ['_', '+', '-', '0', 'x', 'X'], c ≠ mark := by
    rintro mark hmark rfl
    have hsolid : ['_', '+', '-', '0', 'x', 'X'].any
        (fun mark => isBlank mark || mark == ',' || mark == '}') = false := rfl
    have hplain := List.any_eq_false.1 hsolid c hmark
    simp only [Bool.or_eq_true, beq_iff_eq, or_assoc] at hplain
    exact hplain hc
  simp only [List.forall_mem_cons, List.not_mem_nil, false_implies, implies_true, and_true] at hmark
  obtain ⟨hunderscore, hplus, hminus, hzero, hlower, hupper⟩ := hmark
  cases h with
  | decimal _ _ _ hsign htext =>
    have hdigit : decimalDigit? c = none := by
      rcases hc with hblank | rfl | rfl
      · exact decimalDigit?_of_isBlank hblank
      · rfl
      · rfl
    have hrest := htext.not_mem hunderscore hdigit
    cases hsign <;> simp [*]
  | hexadecimal hmark hunder htext =>
    have hdigit : hexDigit? c = none := by
      rcases hc with hblank | rfl | rfl
      · exact hexDigit?_of_isBlank hblank
      · rfl
      · rfl
    have hrest := htext.not_mem hunderscore hdigit
    rcases hmark with rfl | rfl <;> rcases hunder with rfl | rfl <;> simp [*]

/-- Plain decimal digits, with a sign and zeros before them. -/
theorem IsNumeral.plainDecimal {octet : UInt8} {n : Int} {sign : Text} (zeros : Nat)
    (hlow : -128 ≤ n) (hhigh : n ≤ 127) (hmod : (octet.toNat : Int) = n % 256)
    (hsign : IsSign n sign) (hcount : zeros + (Nat.toDigits 10 n.natAbs).length ≤ decimalLimit) :
    IsNumeral octet (sign ++ (List.replicate zeros '0' ++ Nat.toDigits 10 n.natAbs)) := by
  have hplain : ∀ k : Fin 129, ((Nat.toDigits 10 k).mapM decimalDigit?).any (fun digits =>
      ofDigits 10 digits 0 == k && digits.length == (Nat.toDigits 10 k).length &&
        Nat.toDigits 10 k != []) = true := by decide +kernel
  have hdigits := hplain ⟨n.natAbs, by omega⟩
  simp only [Option.any_eq_true, Bool.and_eq_true, beq_iff_eq, bne_iff_ne] at hdigits
  obtain ⟨digits, hmapM, ⟨hvalue, hlength⟩, hsome⟩ := hdigits
  refine .decimal hlow hhigh hmod hsign ((Spells.of_mapM hmapM hsome).zeros rfl zeros) ?_ ?_
  · rw [ofDigits_zeros, hvalue]
  · rw [List.length_append, List.length_replicate, hlength]
    exact hcount

/-- Plain hexadecimal digits, each letter in either case, with zeros before them. -/
theorem IsNumeral.plainHexadecimal {octet : UInt8} {mark : Char} {text : Text} (zeros : Nat)
    (hmark : mark = 'x' ∨ mark = 'X')
    (htext : text.mapM hexDigit? = (Nat.toDigits 16 octet.toNat).mapM hexDigit?) :
    IsNumeral octet ('0' :: mark :: (List.replicate zeros '0' ++ text)) := by
  have hplain : ∀ k : Fin 256, ((Nat.toDigits 16 k).mapM hexDigit?).any (fun digits =>
      ofDigits 16 digits 0 == k && digits != []) = true := by decide +kernel
  have hdigits := hplain ⟨octet.toNat, octet.toNat_lt⟩
  simp only [Option.any_eq_true, Bool.and_eq_true, beq_iff_eq, bne_iff_ne] at hdigits
  obtain ⟨digits, hmapM, hvalue, hsome⟩ := hdigits
  rw [hmapM] at htext
  have hspelled : Spells hexDigit? digits text := by
    refine .of_mapM htext ?_
    rintro rfl
    exact hsome (Option.some.inj htext).symm
  have hnumeral : IsNumeral octet ('0' :: mark :: ([] ++ (List.replicate zeros '0' ++ text))) :=
    .hexadecimal hmark (.inl rfl) (hspelled.zeros rfl zeros) (by rw [ofDigits_zeros, hvalue])
  exact hnumeral

theorem IsNumeral.ne_nil {octet : UInt8} {numeral : Text} (h : IsNumeral octet numeral) :
    numeral ≠ [] := by
  cases h with
  | decimal _ _ _ _ htext =>
    obtain ⟨c, rest, d, rfl, -⟩ := htext.exists_cons
    simp
  | hexadecimal => exact List.cons_ne_nil _ _

/-! ## Tokens -/

/-- What stands between two commas: blanks, or the numeral of a byte with blanks around it. -/
inductive IsToken : Option UInt8 → Text → Prop
  | blank {blanks : Text} : isBlankText blanks = true → IsToken none blanks
  | numeral {octet : UInt8} {front numeral back : Text} : isBlankText front = true →
      IsNumeral octet numeral → isBlankText back = true →
      IsToken (some octet) (front ++ (numeral ++ back))

section

variable {offset : Int} {octet : UInt8} {front numeral back : Text}

theorem byteTokens_append (text body : Text) :
    byteTokens (text ++ ',' :: body) = byteTokens text ++ byteTokens body := by
  simp [byteTokens, pieces_append]

theorem readBytes_append (text body : Text) : readBytes offset (text ++ ',' :: body) =
    (do
      let first ← readBytes offset text
      let rest ← readBytes offset body
      pure (first ++ rest)) := by
  rw [readBytes, byteTokens_append, List.mapM_append]
  rfl

theorem readBytes_of_blank {blanks : Text} (h : isBlankText blanks = true) :
    readBytes offset blanks = .ok [] := by
  have hcomma : ',' ∉ blanks := not_mem_of_isBlankText rfl h
  rw [readBytes, byteTokens, pieces_of_not_mem hcomma, List.map_singleton, trim_of_isBlankText h]
  rfl

/-- A numeral with blanks around it is read as its byte. -/
theorem IsNumeral.readBytes (h : IsNumeral octet numeral) (hfront : isBlankText front = true)
    (hback : isBlankText back = true) :
    readBytes offset (front ++ (numeral ++ back)) = .ok [octet] := by
  have hcomma : ',' ∉ front ++ (numeral ++ back) := by
    simp only [List.mem_append, not_or]
    exact ⟨not_mem_of_isBlankText rfl hfront, h.not_mem (.inr (.inl rfl)),
      not_mem_of_isBlankText rfl hback⟩
  have htrim : trim numeral = numeral := by
    refine trim_of_all (List.all_eq_true.2 fun d hd => ?_)
    rw [Bool.not_eq_true', ← Bool.not_eq_true]
    intro hblank
    exact h.not_mem (.inl hblank) hd
  have htokens : byteTokens (front ++ (numeral ++ back)) = [numeral] := by
    rw [byteTokens, pieces_of_not_mem hcomma, List.map_singleton, trim_append hfront hback, htrim]
    exact List.filter_cons_of_pos (by simpa using h.ne_nil)
  rw [Value.readBytes, htokens, List.mapM_cons, h.readByte]
  rfl

theorem IsToken.readBytes {octet? : Option UInt8} {token : Text} (h : IsToken octet? token) :
    readBytes offset token = .ok octet?.toList := by
  cases h with
  | blank hblanks => exact readBytes_of_blank hblanks
  | numeral hfront hnumeral hback => exact hnumeral.readBytes hfront hback

end

/-! ## Byte strings -/

/-- Tokens with commas between them are read as the bytes of their numerals. -/
theorem readBytes_tokens (offset : Int) {tokens : List (Option UInt8 × Text)}
    (h : ∀ token ∈ tokens, IsToken token.1 token.2) :
    readBytes offset ([','].intercalate (tokens.map Prod.snd)) =
      .ok (tokens.filterMap Prod.fst) := by
  induction tokens with
  | nil => rfl
  | cons token rest ih =>
    have hfirst : readBytes offset token.2 = .ok token.1.toList :=
      (h _ List.mem_cons_self).readBytes
    have hrest := ih fun t ht => h t (List.mem_cons_of_mem _ ht)
    have hbytes : (token :: rest).filterMap Prod.fst =
        token.1.toList ++ rest.filterMap Prod.fst := by
      cases htoken : token.1 <;> simp [htoken]
    rw [hbytes]
    cases rest with
    | nil => simpa using hfirst
    | cons next rest =>
      have hjoined : [','].intercalate ((token :: next :: rest).map Prod.snd) =
          token.2 ++ ',' :: [','].intercalate ((next :: rest).map Prod.snd) := by
        simp [List.intercalate]
      rw [hjoined, readBytes_append, hfirst, hrest]
      rfl

/-- The text of a byte string is read token by token: tokens with commas between them as the bytes
of their numerals, and two texts with a comma between them as what the one and then the other is
read as.  An error in the first hides an error in the second. -/
theorem readBytes_joined (offset : Int) :
    (∀ tokens : List (Option UInt8 × Text), (∀ token ∈ tokens, IsToken token.1 token.2) →
      readBytes offset ([','].intercalate (tokens.map Prod.snd)) =
        .ok (tokens.filterMap Prod.fst)) ∧
    ∀ before after : Text, readBytes offset (before ++ ',' :: after) =
      match readBytes offset before, readBytes offset after with
      | .ok first, .ok rest => .ok (first ++ rest)
      | .ok _, .error e => .error e
      | .error e, _ => .error e := by
  refine ⟨fun tokens htokens => readBytes_tokens offset htokens, fun before after => ?_⟩
  rw [readBytes_append]
  cases readBytes offset before with
  | error e => rfl
  | ok first => cases readBytes offset after <;> rfl

/-- A decimal numeral with zeros, a blank token, a hexadecimal numeral in mixed case and a negative
number. -/
theorem readBytes_joined_of_mixed_tokens :
    readBytes 3 " +007\t, ,0X00fF,-128".toList = .ok [7, 255, 128] := by
  have hseven : IsToken (some 7) ([' '] ++ ((['+'] ++ (['0', '0'] ++ ['7'])) ++ ['\t'])) :=
    .numeral rfl (.plainDecimal (n := 7) 2 (by decide) (by decide) rfl (.plus (by decide))
      (by decide)) rfl
  have hblank : IsToken none [' '] := .blank rfl
  have hhigh : IsToken (some 255) ([] ++ (('0' :: 'X' :: (['0', '0'] ++ ['f', 'F'])) ++ [])) :=
    .numeral rfl (.plainHexadecimal 2 (.inr rfl) rfl) rfl
  have hnegative : IsToken (some 128) ([] ++ ((['-'] ++ ([] ++ ['1', '2', '8'])) ++ [])) :=
    .numeral rfl (.plainDecimal (n := -128) 0 (by decide) (by decide) rfl (.minus (by decide))
      (by decide)) rfl
  exact (readBytes_joined 3).1
    [(some 7, _), (none, _), (some 255, _), (some 128, _)]
    (List.forall_mem_cons.2 ⟨hseven, List.forall_mem_cons.2 ⟨hblank, List.forall_mem_cons.2
      ⟨hhigh, List.forall_mem_singleton.2 hnegative⟩⟩⟩)

end Value
end CommandLine
