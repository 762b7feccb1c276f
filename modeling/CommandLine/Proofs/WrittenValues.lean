/-
# `CommandLine.Proofs.WrittenValues` — structured values read back from their text

A value is written with its texts in quotes, its names with a backslash before each character, its
byte strings as numerals, its lists in brackets and its dictionaries in braces; any blanks may
stand around items, `=` and `,` (`Written`).  Such a text is read as the value, as long as no more
states are active within it than the limit allows (`Value.depth`).

    Written          a text of a value, of an item or of the items of a list
    Written.leads    what the text does to the level it is read in, by induction on how it is written
    read_of_written  a written value is read back, and so are items without brackets

A backslash before each character of a bare text protects all but the blanks at its ends
(`read_escapedEach`).
-/
import CommandLine.Proofs.BuiltValues
import CommandLine.Proofs.ByteNumerals

namespace CommandLine.Value

open Text

/-! ## How values are written -/

/-- A byte as a decimal numeral, from -128 to 127. -/
def decimalNumeral (octet : UInt8) : Text :=
  if octet < 128 then Nat.toDigits 10 octet.toNat
  else '-' :: Nat.toDigits 10 (256 - octet.toNat)

/-- The hexadecimal digits of a byte. -/
def hexDigits (octet : UInt8) : Text := Nat.toDigits 16 octet.toNat

/-- The numerals of a byte: decimal, and hexadecimal with one or two digits in either case. -/
def numerals (octet : UInt8) : List Text :=
  let hex := [hexDigits octet, (hexDigits octet).leftpad 2 '0']
  decimalNumeral octet :: (hex ++ hex.map (·.map Char.toUpper)).map (['0', 'x'] ++ ·)

/-- The text between the braces of a byte string. -/
inductive WrittenBytes : List UInt8 → Text → Prop
  | none {blanks : Text} : isBlankText blanks = true → WrittenBytes [] blanks
  | single {octet : UInt8} {front numeral back : Text} : isBlankText front = true →
      numeral ∈ numerals octet → isBlankText back = true →
      WrittenBytes [octet] (front ++ (numeral ++ back))
  | more {octet next : UInt8} {rest : List UInt8} {text body : Text} :
      WrittenBytes [octet] text → WrittenBytes (next :: rest) body →
      WrittenBytes (octet :: next :: rest) (text ++ ',' :: body)

/-- What can be written: a value, an item with or without a name, or the items of a list. -/
inductive Phrase where
  | value (v : Value)
  | item (name : Option Text) (v : Value)
  | items (items : List (Option Text × Value))

/-- An entry of a dictionary as an item of a list. -/
def named (entry : Text × Value) : Option Text × Value := (some entry.1, entry.2)

/-- A text of a value, of an item or of the items of a list. -/
inductive Written : Phrase → Text → Prop
  | text (characters : Text) :
      Written (.value (.text characters)) ('"' :: Format.escaped characters ++ ['"'])
  | bytes {octets : List UInt8} {body : Text} : WrittenBytes octets body →
      Written (.value (.bytes octets)) (Draft.bytesWord ++ '{' :: body ++ ['}'])
  | list {items : List (Option Text × Value)} {body : Text} : Written (.items items) body →
      Written (.value (.list items)) ('[' :: body ++ [']'])
  | dict {entries : List (Text × Value)} {body : Text} : (entries.map Prod.fst).Nodup →
      Written (.items (entries.map named)) body →
      Written (.value (.dict entries)) ('{' :: body ++ ['}'])
  | unnamed {v : Value} {front text back : Text} : isBlankText front = true →
      Written (.value v) text → isBlankText back = true →
      Written (.item none v) (front ++ (text ++ back))
  | named {name front middle middle' : Text} {v : Value} {text back : Text} : name ≠ [] →
      trim name = name → isBlankText front = true → isBlankText middle = true →
      isBlankText middle' = true → Written (.value v) text → isBlankText back = true →
      Written (.item (some name) v)
        (front ++ (Site.escapedEach name ++ (middle ++ ['='])) ++ (middle' ++ (text ++ back)))
  | none {blanks : Text} : isBlankText blanks = true → Written (.items []) blanks
  | single {item : Option Text × Value} {text : Text} : Written (.item item.1 item.2) text →
      Written (.items [item]) text
  | more {item next : Option Text × Value} {rest : List (Option Text × Value)}
      {text body : Text} : Written (.item item.1 item.2) text →
      Written (.items (next :: rest)) body →
      Written (.items (item :: next :: rest)) (text ++ ',' :: body)

/-! ## Which values can be written -/

/-- A name that can be written. -/
def IsName (name : Text) : Prop := name ≠ [] ∧ trim name = name

mutual

/-- The names in a value can be written, and those of a dictionary differ. -/
def IsWritable : Value → Prop
  | text _ => True
  | bytes _ => True
  | list items => AreWritable items
  | dict entries => (entries.map Prod.fst).Nodup ∧ EntriesAreWritable entries

/-- The names of items and in them can be written. -/
def AreWritable : List (Option Text × Value) → Prop
  | [] => True
  | (name, v) :: rest => (∀ n ∈ name, IsName n) ∧ IsWritable v ∧ AreWritable rest

/-- The names of entries and in them can be written. -/
def EntriesAreWritable : List (Text × Value) → Prop
  | [] => True
  | (name, v) :: rest => IsName name ∧ IsWritable v ∧ EntriesAreWritable rest

end

theorem exists_writtenBytes (octets : List UInt8) : ∃ body, WrittenBytes octets body := by
  have hsingle (octet : UInt8) : WrittenBytes [octet] ([] ++ (decimalNumeral octet ++ [])) :=
    .single rfl List.mem_cons_self rfl
  induction octets with
  | nil => exact ⟨[], .none rfl⟩
  | cons octet rest ih =>
    obtain ⟨body, hbody⟩ := ih
    cases rest with
    | nil => exact ⟨_, hsingle octet⟩
    | cons next rest => exact ⟨_, .more (hsingle octet) hbody⟩

theorem exists_writtenItem {name : Option Text} {v : Value} {text : Text}
    (hname : ∀ n ∈ name, IsName n) (h : Written (.value v) text) :
    ∃ text, Written (.item name v) text := by
  cases name with
  | none => exact ⟨[] ++ (text ++ []), .unnamed rfl h rfl⟩
  | some name =>
    obtain ⟨hsome, htrim⟩ := hname name rfl
    exact ⟨[] ++ (Site.escapedEach name ++ ([] ++ ['='])) ++ ([] ++ (text ++ [])),
      .named hsome htrim rfl rfl rfl h rfl⟩

theorem exists_written_cons {item : Option Text × Value} {rest : List (Option Text × Value)}
    (hitem : ∃ text, Written (.item item.1 item.2) text) (hrest : ∃ body, Written (.items rest) body) :
    ∃ body, Written (.items (item :: rest)) body := by
  obtain ⟨text, hitem⟩ := hitem
  obtain ⟨body, hrest⟩ := hrest
  cases rest with
  | nil => exact ⟨text, .single hitem⟩
  | cons next rest => exact ⟨_, .more hitem hrest⟩

mutual

/-- Each value whose names can be written can be written. -/
theorem exists_written : ∀ v : Value, v.IsWritable → ∃ text, Written (.value v) text
  | text characters, _ => ⟨_, .text characters⟩
  | bytes octets, _ =>
    let ⟨_, hbody⟩ := exists_writtenBytes octets
    ⟨_, .bytes hbody⟩
  | list items, h =>
    let ⟨_, hbody⟩ := exists_writtenItems items h
    ⟨_, .list hbody⟩
  | dict entries, h =>
    let ⟨_, hbody⟩ := exists_writtenEntries entries h.2
    ⟨_, .dict h.1 hbody⟩

theorem exists_writtenItems : ∀ items : List (Option Text × Value), AreWritable items →
    ∃ body, Written (.items items) body
  | [], _ => ⟨[], .none rfl⟩
  | (_, v) :: rest, h =>
    let ⟨_, hvalue⟩ := exists_written v h.2.1
    exists_written_cons (exists_writtenItem h.1 hvalue) (exists_writtenItems rest h.2.2)

theorem exists_writtenEntries : ∀ entries : List (Text × Value), EntriesAreWritable entries →
    ∃ body, Written (.items (entries.map named)) body
  | [], _ => ⟨[], .none rfl⟩
  | (_, v) :: rest, h =>
    let ⟨_, hvalue⟩ := exists_written v h.2.1
    exists_written_cons (exists_writtenItem (by rintro _ ⟨⟩; exact h.1) hvalue)
      (exists_writtenEntries rest h.2.2)

end

/-! ## How deep they are nested -/

mutual

/-- The number of states that are active at once within the text of a value. -/
def depth : Value → Nat
  | text characters => if characters.any Site.isEscaped then 2 else 1
  | bytes _ => 1
  | list items => itemsDepth items + 1
  | dict entries => entriesDepth entries + 1

/-- The number of states that are active at once within the items of a list. -/
def itemsDepth : List (Option Text × Value) → Nat
  | [] => 0
  | (_, v) :: rest => max (depth v) (itemsDepth rest)

/-- The number of states that are active at once within the entries of a dictionary. -/
def entriesDepth : List (Text × Value) → Nat
  | [] => 0
  | (_, v) :: rest => max (depth v) (entriesDepth rest)

end

theorem depth_pos (v : Value) : 0 < v.depth := by
  cases v with
  | text characters =>
    rw [depth]
    split <;> omega
  | bytes octets => exact Nat.one_pos
  | list items => exact Nat.succ_pos _
  | dict entries => exact Nat.succ_pos _

theorem itemsDepth_named (entries : List (Text × Value)) :
    itemsDepth (entries.map named) = entriesDepth entries := by
  induction entries with
  | nil => rfl
  | cons entry rest ih =>
    obtain ⟨name, v⟩ := entry
    rw [List.map_cons, named, itemsDepth, ih, entriesDepth]

/-! ## Byte strings -/

theorem isNumeral_decimalNumeral (octet : UInt8) : IsNumeral octet (decimalNumeral octet) := by
  have hlength : ∀ k : Fin 129, 0 + (Nat.toDigits 10 k).length ≤ decimalLimit := by decide
  have hoctet := octet.toNat_lt
  by_cases hsmall : octet < 128
  · have hsmall' : octet.toNat < 128 := hsmall
    rw [decimalNumeral, if_pos hsmall]
    exact .plainDecimal (n := octet.toNat) 0 (by omega) (by omega) (by omega) (.none (by omega))
      (hlength ⟨octet.toNat, by omega⟩)
  · have hlarge : ¬ octet.toNat < 128 := hsmall
    have habs : ((octet.toNat : Int) - 256).natAbs = 256 - octet.toNat := by omega
    have hnumeral : IsNumeral octet (['-'] ++ (List.replicate 0 '0' ++
        Nat.toDigits 10 ((octet.toNat : Int) - 256).natAbs)) :=
      .plainDecimal 0 (by omega) (by omega) (by omega) (.minus (by omega))
        (hlength ⟨((octet.toNat : Int) - 256).natAbs, by omega⟩)
    rw [habs] at hnumeral
    rw [decimalNumeral, if_neg hsmall]
    exact hnumeral

theorem isNumeral_of_mem_numerals {octet : UInt8} {numeral : Text} (h : numeral ∈ numerals octet) :
    IsNumeral octet numeral := by
  have hupper : ∀ k : Fin 256, ((Nat.toDigits 16 k).map Char.toUpper).mapM hexDigit? =
      (Nat.toDigits 16 k).mapM hexDigit? := by decide +kernel
  have hhex {text : Text} (zeros : Nat) (htext : text = hexDigits octet ∨
      text = (hexDigits octet).map Char.toUpper) :
      IsNumeral octet (['0', 'x'] ++ (List.replicate zeros '0' ++ text)) := by
    refine .plainHexadecimal zeros (.inl rfl) ?_
    rcases htext with rfl | rfl
    · rfl
    · exact hupper ⟨octet.toNat, octet.toNat_lt⟩
  have hpadded : ((hexDigits octet).leftpad 2 '0').map Char.toUpper =
      List.replicate (2 - (hexDigits octet).length) '0' ++ (hexDigits octet).map Char.toUpper := by
    rw [List.leftpad, List.map_append, List.map_replicate]
    rfl
  simp only [numerals, List.map_cons, List.map_nil, List.cons_append, List.nil_append,
    List.mem_cons, List.not_mem_nil, or_false, hpadded] at h
  rcases h with rfl | rfl | rfl | rfl | rfl
  · exact isNumeral_decimalNumeral octet
  · exact hhex 0 (.inl rfl)
  · exact hhex _ (.inl rfl)
  · exact hhex 0 (.inr rfl)
  · exact hhex _ (.inr rfl)

/-- What stands between the braces is read as the bytes, and closes no brace. -/
theorem WrittenBytes.read {octets : List UInt8} {body : Text} (h : WrittenBytes octets body) :
    readBytes 0 body = .ok octets ∧ '}' ∉ body := by
  induction h with
  | none hblanks => exact ⟨readBytes_of_blank hblanks, not_mem_of_isBlankText rfl hblanks⟩
  | single hfront hnumeral hback =>
    have hnumeral := isNumeral_of_mem_numerals hnumeral
    refine ⟨hnumeral.readBytes hfront hback, ?_⟩
    simp only [List.mem_append, not_or]
    exact ⟨not_mem_of_isBlankText rfl hfront, hnumeral.not_mem (.inr (.inr rfl)),
      not_mem_of_isBlankText rfl hback⟩
  | more _ _ ihfirst ihrest =>
    refine ⟨by rw [readBytes_append, ihfirst.1, ihrest.1]; rfl, ?_⟩
    rw [List.mem_append, List.mem_cons]
    rintro (hmem | hmem | hmem)
    · exact ihfirst.2 hmem
    · cases hmem
    · exact ihrest.2 hmem

/-! ## What a draft holds -/

/-- The draft of a level holds a value with a name, and the blanks after it; nothing else differs
from the level `l`. -/
inductive Level.Holds (l : Level) (name : Option Text) : Value → Level → Prop
  | quoted (characters : Text) {blanks : Text} : isBlankText blanks = true →
      l.Holds name (.text characters) ((l.quoting name characters).append blanks)
  | value (v : Value) (blanks : Text) : l.Holds name v (l.holding name blanks v)

namespace Level.Holds

variable {l l' : Level} {name : Option Text} {v : Value} {text : Text}

theorem append (h : l.Holds name v l') (htext : isBlankText text = true) :
    l.Holds name v (l'.append text) := by
  cases h with
  | quoted characters hblanks =>
    rw [Level.append_append]
    refine .quoted characters ?_
    rw [isBlankText, List.all_append, Bool.and_eq_true]
    exact ⟨hblanks, htext⟩
  | value v blanks => exact .value v (blanks ++ text)

/-- The value that the draft holds becomes an item. -/
theorem finishItem (h : l.Holds name v l') :
    l'.finishItem = { l with items := l.items ++ [(name, v)], draft := {} } := by
  cases h with
  | @quoted characters blanks hblanks =>
    have htext : (((l.quoting name characters).append blanks).draft).quotedText = characters := by
      show (characters ++ blanks).take characters.length ++
        trimEnd ((characters ++ blanks).drop characters.length) = characters
      rw [List.take_left, List.drop_left, trimEnd_of_isBlankText hblanks, List.append_nil]
    have hitem : ((l.quoting name characters).append blanks).draft.item? =
        some (name, .text characters) :=
      congrArg (fun text => some (name, Value.text text)) htext
    rw [Level.finishItem, hitem]
    rfl
  | value v blanks => rfl

end Level.Holds

/-! ## What items stand for -/

theorem entries_of_named (kind : Kind) (entries : List (Text × Value)) :
    ({ kind := kind, items := entries.map named } : Level).entries = Entries.ofList entries := by
  rw [Level.entries, List.filterMap_map]
  exact congrArg Entries.ofList (List.filterMap_some ..)

/-- The items of a dictionary in braces stand for it. -/
theorem value_object {entries : List (Text × Value)} (hnames : (entries.map Prod.fst).Nodup) :
    ({ kind := .object, items := entries.map named } : Level).value =
      .ok (some (.dict entries)) := by
  have hunnamed : ({ kind := .object, items := entries.map named } : Level).firstUnnamed? =
      none := by
    rw [Level.firstUnnamed?, List.find?_eq_none.2]
    · rfl
    · intro item hitem
      obtain ⟨entry, -, rfl⟩ := List.mem_map.1 hitem
      nofun
  simp only [Level.value, hunnamed, entries_of_named, Entries.ofList_of_nodup hnames]

/-- Several items without brackets are a dictionary or a list. -/
theorem value_whole {items : List (Option Text × Value)} (hsome : items ≠ [])
    (hsingle : ∀ v, items ≠ [(none, v)]) : ({ kind := .whole, items := items } : Level).value =
      .ok (some (if items.all (·.1.isSome) then
        .dict ({ kind := .whole, items := items } : Level).entries else .list items)) := by
  match items with
  | [] => exact absurd rfl hsome
  | [(none, v)] => exact absurd rfl (hsingle v)
  | [(some name, v)] => rfl
  | (none, v) :: second :: rest => rfl
  | (some name, v) :: second :: rest => rfl

/-- Items with names stand for a dictionary. -/
theorem value_whole_of_named {entries : List (Text × Value)} (hsome : entries ≠ []) :
    ({ kind := .whole, items := entries.map named } : Level).value =
      .ok (some (.dict (Entries.ofList entries))) := by
  have hall : (entries.map named).all (·.1.isSome) = true := by
    rw [List.all_map]
    exact List.all_eq_true.2 fun _ _ => rfl
  have hsingle (v : Value) : entries.map named ≠ [(none, v)] := by
    intro heq
    rw [heq] at hall
    cases hall
  rw [value_whole (by simpa using hsome) hsingle, if_pos hall, entries_of_named]

/-- Items of which one has no name stand for a list. -/
theorem value_whole_of_unnamed {items : List (Option Text × Value)} (hlength : 2 ≤ items.length)
    (hunnamed : ∃ item ∈ items, item.1 = none) :
    ({ kind := .whole, items := items } : Level).value = .ok (some (.list items)) := by
  obtain ⟨item, hitem, hname⟩ := hunnamed
  have hall : ¬ items.all (·.1.isSome) = true := by
    intro hall
    have hnamed := List.all_eq_true.1 hall item hitem
    rw [hname] at hnamed
    cases hnamed
  have hsingle (v : Value) : items ≠ [(none, v)] := by
    rintro rfl
    exact Nat.not_succ_le_self 1 hlength
  rw [value_whole (List.ne_nil_of_mem hitem) hsingle, if_neg hall]

/-! ## What a text does to the level it is read in -/

/-- What a text of a phrase does: a value is held by the draft that it is read in, and so is an
item; items are added to those of the level. -/
def Phrase.Leads (maxDepth : Int) (text : Text) : Phrase → Prop
  | .value v => ∀ (x : StateName) (outer : List StateName) (levels : List Level) (l : Level)
      (name : Option Text) (blanks : Text), (x :: outer).all StateName.readsItems = true →
      ((x :: outer).length + v.depth : Nat) ≤ maxDepth → isBlankText blanks = true →
      ∃ l', l.Holds name v l' ∧ Site.Leads maxDepth text
        (.reading (x :: outer) levels (l.drafting name blanks))
        (.reading (x :: outer) levels l')
  | .item name v => ∀ (x : StateName) (outer : List StateName) (levels : List Level) (l : Level),
      (x :: outer).all StateName.readsItems = true →
      ((x :: outer).length + v.depth : Nat) ≤ maxDepth →
      ∃ l', l.Holds name v l' ∧ Site.Leads maxDepth text
        (.reading (x :: outer) levels (l.drafting Option.none []))
        (.reading (x :: outer) levels l')
  | .items parts => ∀ (x : StateName) (outer : List StateName) (levels : List Level) (l : Level),
      (x :: outer).all StateName.readsItems = true →
      ((x :: outer).length + itemsDepth parts : Nat) ≤ maxDepth →
      ∃ l', l'.finishItem = { l with items := l.items ++ parts, draft := {} } ∧
        Site.Leads maxDepth text (.reading (x :: outer) levels (l.drafting Option.none []))
          (.reading (x :: outer) levels l')

theorem Phrase.leads_of_blanks {maxDepth : Int} {v : Value} {text front back : Text}
    {x : StateName} {outer : List StateName} {levels : List Level} {l : Level}
    {name : Option Text} (h : (Phrase.value v).Leads maxDepth text)
    (hactive : (x :: outer).all StateName.readsItems = true)
    (hroom : ((x :: outer).length + v.depth : Nat) ≤ maxDepth)
    (hfront : isBlankText front = true) (hback : isBlankText back = true) :
    ∃ l', l.Holds name v l' ∧ Site.Leads maxDepth (front ++ (text ++ back))
      (.reading (x :: outer) levels (l.drafting name []))
      (.reading (x :: outer) levels l') := by
  obtain ⟨l', hholds, hleads⟩ := h x outer levels l name front hactive hroom hfront
  have hx := Site.isItems hactive
  refine ⟨l'.append back, hholds.append hback, ?_⟩
  exact (Site.leads_blanks hx hfront).append (hleads.append (Site.leads_blanks hx hback))

/-- The items between delimiters make up a value of their own, one level further in. -/
theorem Phrase.Leads.between {maxDepth : Int} {parts : List (Option Text × Value)} {body : Text}
    {opening closing : Char} {y : StateName} {kind : Kind} {v : Value}
    (h : (Phrase.items parts).Leads maxDepth body)
    (hy : Site.Delimits opening closing y kind) (hitems : y.readsItems = true)
    (hdepth : v.depth = itemsDepth parts + 1)
    (hvalue : ({ kind := kind, items := parts } : Level).value = .ok (some v)) :
    (Phrase.value v).Leads maxDepth (opening :: body ++ [closing]) := by
  intro x outer levels l name blanks hactive hroom hblanks
  rw [hdepth] at hroom
  have hinner : (y :: x :: outer).all StateName.readsItems = true := by
    rw [List.all_cons, hitems, hactive]
    rfl
  obtain ⟨inner, hfinished, hbody⟩ := h y (x :: outer) (l.drafting name blanks :: levels)
    { kind := kind } hinner (by rw [List.length_cons]; omega)
  have hinside : inner.finishItem.value = .ok (some v) := by
    rw [hfinished]
    exact hvalue
  exact ⟨_, .value _ blanks, Site.leads_level hactive hy (by omega) hblanks hbody hinside⟩

/-- A text does to its level what its phrase does.  The induction is on how the text is written; the
room that is left shrinks by one with each list and each dictionary. -/
theorem Written.leads {φ : Phrase} {text : Text} (maxDepth : Int) (h : Written φ text) :
    φ.Leads maxDepth text := by
  induction h with
  | text characters =>
    intro x outer levels l name blanks hactive hroom hblanks
    rw [depth] at hroom
    refine ⟨l.quoting name characters, ?_, Site.leads_quoted hactive ?_ ?_ hblanks⟩
    · have hquoted : l.Holds name (.text characters) ((l.quoting name characters).append []) :=
        .quoted characters rfl
      rwa [Level.append_nil] at hquoted
    · split at hroom <;> omega
    · intro hescaped
      rw [if_pos hescaped] at hroom
      rw [List.length_cons]
      omega
  | bytes hbody =>
    intro x outer levels l name blanks hactive hroom hblanks
    obtain ⟨hread, hbrace⟩ := hbody.read
    rw [depth] at hroom
    exact ⟨_, .value _ [], Site.leads_bytes hactive (by omega) hblanks hbrace hread⟩
  | list _ ih => exact ih.between Site.delimits_list rfl (by rw [depth]) rfl
  | dict hnames _ ih =>
    exact ih.between Site.delimits_object rfl (by rw [depth, itemsDepth_named]) (value_object hnames)
  | unnamed hfront _ hback ih =>
    intro x outer levels l hactive hroom
    exact Phrase.leads_of_blanks ih hactive hroom hfront hback
  | @named name front middle middle' v text back hname htrim hfront hmiddle hmiddle' _ hback ih =>
    intro x outer levels l hactive hroom
    have hpos := depth_pos v
    have hvalue : ∃ l', l.Holds (some name) v l' ∧ Site.Leads maxDepth (middle' ++ (text ++ back))
        (.reading (x :: outer) levels (l.drafting (some name) []))
        (.reading (x :: outer) levels l') :=
      Phrase.leads_of_blanks ih hactive hroom hmiddle' hback
    obtain ⟨l', hholds, hleads⟩ := hvalue
    refine ⟨l', hholds, ?_⟩
    exact (Site.leads_name hactive (by omega) hname htrim hfront hmiddle).append hleads
  | @none blanks hblanks =>
    intro x outer levels l hactive hroom
    have hitem : (l.drafting Option.none blanks).draft.item? = Option.none := by
      show (if isBlankText blanks && true then _ else _) = _
      rw [hblanks]
      rfl
    refine ⟨l.drafting Option.none blanks, ?_, Site.leads_blanks (Site.isItems hactive) hblanks⟩
    rw [Level.finishItem, hitem]
    rfl
  | @single item text _ ih =>
    intro x outer levels l hactive hroom
    obtain ⟨l', hholds, hleads⟩ := ih x outer levels l hactive (by simpa [itemsDepth] using hroom)
    exact ⟨l', hholds.finishItem, hleads⟩
  | @more item next rest text body _ _ ihitem ihrest =>
    intro x outer levels l hactive hroom
    obtain ⟨name, v⟩ := item
    rw [itemsDepth] at hroom
    obtain ⟨l', hholds, hitem⟩ := ihitem x outer levels l hactive (by dsimp only; omega)
    obtain ⟨l'', hitems, hrest⟩ := ihrest x outer levels
      { l with items := l.items ++ [(name, v)], draft := {} } hactive (by omega)
    have hcomma : Site.Leads maxDepth [','] (.reading (x :: outer) levels l')
        (.reading (x :: outer) levels l'.finishItem) := Site.leads_comma hactive
    rw [hholds.finishItem] at hcomma
    refine ⟨l'', ?_, hitem.append (hcomma.cons hrest)⟩
    rw [hitems, List.append_assoc, List.singleton_append]

/-! ## Reading what is written -/

/-- Only the items of an empty list are written as blanks. -/
theorem Written.isBlankText_eq_false {φ : Phrase} {text : Text} (h : Written φ text)
    (hsome : φ ≠ .items []) : isBlankText text = false := by
  induction h with
  | text characters => rfl
  | bytes _ => rfl
  | list _ _ => rfl
  | dict _ _ _ => rfl
  | unnamed _ _ _ ih =>
    have htext := ih (by simp)
    rw [isBlankText] at htext ⊢
    simp only [List.all_append, htext, Bool.false_and, Bool.and_false]
  | named _ _ _ _ _ _ _ ih =>
    have htext := ih (by simp)
    rw [isBlankText] at htext ⊢
    simp only [List.all_append, htext, Bool.false_and, Bool.and_false]
  | none _ => exact absurd rfl hsome
  | single _ ih => exact ih (by simp)
  | more _ _ ihitem _ =>
    have htext := ihitem (by simp)
    rw [isBlankText] at htext ⊢
    simp only [List.all_append, htext, Bool.false_and]

/-- A text is read as what the whole stands for once the last item has ended. -/
theorem read_of_leads {text : Text} {l : Level} {value : Option Value}
    (hsolid : isBlankText text = false)
    (hleads : Site.Leads defaultMaxDepth text (.reading [.value] [] { kind := .whole })
      (.reading [.value] [] l))
    (hvalue : l.finishItem.value = .ok value) : read true (some text) = .ok value := by
  have henter : Scene.enter grammar Builder.react ⟨defaultMaxDepth, [], text⟩ .value ⟨[], {}⟩ =
      some (Site.reading [.value] [] { kind := .whole }) := rfl
  have hwalk : Scene.walk grammar Builder.react defaultMaxDepth [] text []
      (Site.reading [.value] [] { kind := .whole }) = some (Site.reading [.value] [] l) :=
    hleads [] []
  have hfinish : Scene.finish grammar Builder.react ⟨defaultMaxDepth, text, []⟩
      (Site.reading [.value] [] l) = some ⟨[], { result := value }⟩ := Site.finish_whole hvalue
  have hplain : ({} : Settings).substitutes = false := rfl
  have hread := (Graph.sketch_readText tame_grammar Builder.sketches hplain .value text {}).trans
    (Scene.read_eq_some _ _ henter hwalk hfinish)
  rw [Value.read, Graph.read_of_not_isBlankText hsolid]
  cases hrun : grammar.readText {} true Builder.listener .value text {} with
  | mk builder outcome =>
    rw [hrun] at hread
    cases outcome with
    | error fault => cases hread
    | ok result =>
      cases hread
      rfl

/-- The text of some items is read as what they stand for. -/
theorem read_items {items : List (Option Text × Value)} {text : Text} {value : Option Value}
    (h : Written (.items items) text) (hsome : items ≠ [])
    (hdepth : (1 + itemsDepth items : Nat) ≤ defaultMaxDepth)
    (hvalue : ({ kind := .whole, items := items } : Level).value = .ok value) :
    read true (some text) = .ok value := by
  have hsolid : isBlankText text = false :=
    h.isBlankText_eq_false fun hnone => hsome (Phrase.items.inj hnone)
  obtain ⟨l', hitems, hleads⟩ := h.leads defaultMaxDepth .value [] [] { kind := .whole } rfl hdepth
  refine read_of_leads hsolid hleads ?_
  rw [hitems]
  exact hvalue

/-- A written value is read back.  Items without brackets are read as a dictionary if all of them
have names, a name standing for the last value that it has, and as a list otherwise. -/
theorem read_of_written :
    (∀ (v : Value) (text : Text), Written (.item none v) text →
      (1 + v.depth : Nat) ≤ defaultMaxDepth → read true (some text) = .ok (some v)) ∧
    (∀ (entries : List (Text × Value)) (text : Text), Written (.items (entries.map named)) text →
      entries ≠ [] → (1 + entriesDepth entries : Nat) ≤ defaultMaxDepth →
      ∃ table, read true (some text) = .ok (some (.dict table)) ∧
        (table.map Prod.fst).Nodup ∧
        ∀ name, table.lookup name = entries.reverse.lookup name) ∧
    ∀ (items : List (Option Text × Value)) (text : Text), Written (.items items) text →
      2 ≤ items.length → (∃ item ∈ items, item.1 = none) →
      (1 + itemsDepth items : Nat) ≤ defaultMaxDepth →
      read true (some text) = .ok (some (.list items)) := by
  refine ⟨fun v text h hdepth => ?_, fun entries text h hsome hdepth => ?_,
    fun items text h hlength hunnamed hdepth => ?_⟩
  · have hitem : Written (.items [(none, v)]) text := .single h
    exact read_items hitem nofun (by simpa [itemsDepth] using hdepth) rfl
  · rw [← itemsDepth_named] at hdepth
    exact ⟨Entries.ofList entries,
      read_items h (by simpa using hsome) hdepth (value_whole_of_named hsome),
      Entries.nodup_keys_ofList entries, Entries.lookup_ofList entries⟩
  · exact read_items h (List.ne_nil_of_length_pos (by omega)) hdepth
      (value_whole_of_unnamed hlength hunnamed)

/-- A list with a named text and a byte string in it. -/
theorem read_of_written_of_nested :
    read true (some " [ \\k = \"a\\\"\" ,bytes\x7b-1, 0x0A\x7d ] ".toList) =
      .ok (some (.list [(some ['k'], .text ['a', '"']), (none, .bytes [255, 10])])) := by
  have hname : Written (.item (some ['k']) (.text ['a', '"']))
      ([' '] ++ (Site.escapedEach ['k'] ++ ([' '] ++ ['='])) ++
        ([' '] ++ ('"' :: Format.escaped ['a', '"'] ++ ['"'] ++ [' ']))) :=
    .named (List.cons_ne_nil _ _) rfl rfl rfl rfl (.text _) rfl
  have hoctets : WrittenBytes [255, 10]
      ([] ++ (['-', '1'] ++ []) ++ ',' :: ([' '] ++ (['0', 'x', '0', 'A'] ++ []))) :=
    .more (.single rfl (by decide +kernel) rfl) (.single rfl (by decide +kernel) rfl)
  have hbytes : Written (.item none (.bytes [255, 10])) ([] ++ (_ ++ [' '])) :=
    .unnamed rfl (.bytes hoctets) rfl
  have hlist : Written (.item none (.list [(some ['k'], .text ['a', '"']),
      (none, .bytes [255, 10])])) ([' '] ++ (_ ++ [' '])) :=
    .unnamed rfl (.list (.more hname (.single hbytes))) rfl
  exact read_of_written.1 _ _ hlist (by decide)

/-! ## Reading a text that is protected throughout -/

/-- What a bare text stands for: nothing if it is blank, itself without the blanks at its ends
otherwise. -/
theorem value_finishItem_bare (text : Text) :
    ((({ kind := .whole } : Level).append text).finishItem).value =
      .ok (if isBlankText text then none else some (.text (trim text))) := by
  have hitem : ((({ kind := .whole } : Level).append text).draft).item? =
      if isBlankText text then none else some (none, .text (trim text)) := by
    show (if isBlankText text && true then _ else _) = _
    rw [Bool.and_true]
    rfl
  rw [Level.finishItem, hitem]
  by_cases hblank : isBlankText text = true
  · rw [if_pos hblank, if_pos hblank]
    rfl
  · rw [if_neg hblank, if_neg hblank]
    rfl

/-- A text with a backslash before each of its characters is read as the text without the blanks
at its ends: the backslash keeps every delimiter out of the grammar, but the blanks that it stood
before are trimmed like others.  So the text itself is read back exactly if it neither starts nor
ends with a blank. -/
theorem read_escapedEach (text : Text) :
    read true (some (Site.escapedEach text)) =
        .ok (if isBlankText text then none else some (.text (trim text))) ∧
      (read true (some (Site.escapedEach text)) = .ok (some (.text text)) ↔
        text ≠ [] ∧ trim text = text) := by
  have hread : read true (some (Site.escapedEach text)) =
      .ok (if isBlankText text then none else some (.text (trim text))) := by
    cases text with
    | nil => rfl
    | cons d rest =>
      have hleads : Site.Leads defaultMaxDepth (Site.escapedEach (d :: rest))
          (.reading [.value] [] { kind := .whole })
          (.reading [.value] [] (({ kind := .whole } : Level).append (d :: rest))) :=
        Site.leads_escapedEach rfl rfl rfl (by decide) rfl _
      exact read_of_leads rfl hleads (value_finishItem_bare _)
  refine ⟨hread, ?_⟩
  rw [hread]
  constructor
  · intro h
    by_cases hblank : isBlankText text = true
    · rw [if_pos hblank] at h
      cases h
    · rw [if_neg hblank] at h
      refine ⟨?_, by simpa using h⟩
      rintro rfl
      exact hblank rfl
  · rintro ⟨hsome, htrim⟩
    have hsolid : ¬ isBlankText text = true := fun hblank =>
      hsome (htrim.symm.trans (trim_of_isBlankText hblank))
    rw [if_neg hsolid, htrim]

/-- A blank is lost although a backslash stands before it. -/
theorem not_read_escapedEach_of_blank :
    ¬ ∀ text : Text, text ≠ [] →
      read true (some (Site.escapedEach text)) = .ok (some (.text text)) := by
  intro h
  have hread : read true (some (Site.escapedEach [' '])) = .ok none := rfl
  have hblank := h [' '] (List.cons_ne_nil _ _)
  rw [hread] at hblank
  cases hblank

end CommandLine.Value
