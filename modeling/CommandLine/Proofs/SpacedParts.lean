/-
# `CommandLine.Proofs.SpacedParts` — the parts of an operation with gaps between their tokens

A line is a list of tokens with gaps between them: the separators, the quoted types and names of
nodes, the name of the operation, names and values of its lists (`Spaced`).  What a gap does
depends on the state.

    a list, a command, after the `:`    it is skipped
    node, operation name, header name   it is skipped as a separator follows
    address                             it is skipped as a separator stands on either side
    property name, values               it is content, and trimmed when the token is complete

That tokens lead from one draft to another whatever gaps stand before them (`Draft.Leads`) is closed
under concatenation, so that addresses and lists are read by induction on their items.
-/
import CommandLine.Proofs.ClosedText
import CommandLine.Proofs.CommandText

namespace CommandLine

open Text Argument

/-! ## Tokens and gaps -/

/-- The text holds the tokens in their order, with gaps before each of them. -/
inductive Spaced : List Text → Text → Prop
  | nil : Spaced [] []
  | cons {gaps token text : Text} {tokens : List Text} (hgaps : gaps.all isGap = true)
      (hmore : Spaced tokens text) : Spaced (token :: tokens) (gaps ++ (token ++ text))

namespace Spaced

variable {first second tokens : List Text} {token text : Text}

theorem split (h : Spaced (first ++ second) text) :
    ∃ front back, text = front ++ back ∧ Spaced first front ∧ Spaced second back := by
  induction first generalizing text with
  | nil => exact ⟨[], text, rfl, nil, h⟩
  | cons token first ih =>
    cases h with
    | cons hgaps hmore =>
      obtain ⟨front, back, rfl, hfront, hback⟩ := ih hmore
      exact ⟨_, back, by simp, cons hgaps hfront, hback⟩

theorem append {front back : Text} (hfirst : Spaced first front) (hsecond : Spaced second back) :
    Spaced (first ++ second) (front ++ back) := by
  induction hfirst with
  | nil => exact hsecond
  | cons hgaps _ ih =>
    rw [List.append_assoc, List.append_assoc]
    exact cons hgaps ih

/-- Gaps and tokens in turn. -/
theorem of_pairs {pairs : List (Text × Text)} (htokens : pairs.map Prod.snd = tokens)
    (htext : (pairs.flatMap fun p => p.1 ++ p.2) = text)
    (hgaps : pairs.all (fun p => p.1.all isGap) = true) : Spaced tokens text := by
  subst htokens htext
  induction pairs with
  | nil => exact nil
  | cons p pairs ih =>
    rw [List.all_cons, Bool.and_eq_true] at hgaps
    rw [List.flatMap_cons, List.append_assoc]
    exact cons hgaps.1 (ih hgaps.2)

/-- The gaps may all be empty. -/
theorem flatten (tokens : List Text) : Spaced tokens tokens.flatten := by
  induction tokens with
  | nil => exact nil
  | cons token tokens ih => exact @cons [] _ _ _ rfl ih

theorem mem {c : Char} (h : Spaced tokens text) (htoken : token ∈ tokens) (hc : c ∈ token) :
    c ∈ text := by
  induction h with
  | nil => cases htoken
  | cons hgaps hmore ih =>
    rw [List.mem_append, List.mem_append]
    rcases List.mem_cons.1 htoken with rfl | htoken
    · exact .inr (.inl hc)
    · exact .inr (.inr (ih htoken))

/-- The text ends on the last token. -/
theorem exists_concat (h : Spaced (tokens ++ [token]) text) : ∃ front, text = front ++ token := by
  obtain ⟨front, back, rfl, -, hback⟩ := h.split
  cases hback with
  | @cons gaps _ _ _ hgaps hmore =>
    cases hmore
    exact ⟨front ++ gaps, by simp⟩

end Spaced

namespace Text

theorem all_isBlank_of_gaps {gaps : Text} (hgaps : gaps.all isGap = true) :
    gaps.all isBlank = true :=
  List.all_eq_true.2 fun d hd => isBlank_of_isGap (List.all_eq_true.1 hgaps d hd)

end Text

namespace Draft

open StateName

variable {maxDepth : Int} {x : StateName} {outer : List StateName} {k k' : Sketch}
  {sc sc' sc'' : Draft} {gaps token before after : Text} {first second : List Text} {c d : Char}
  {start : Nat}

/-! ## What gaps do -/

/-- Gaps are skipped if none of them changes anything where it stands. -/
theorem walk_gaps (hgaps : gaps.all isGap = true)
    (hskip : ∀ seen d later, isGap d = true → seen.all isGap = true → later.all isGap = true →
      handle ⟨maxDepth, before ++ seen, d :: (later ++ after)⟩ sc = some sc) :
    walk maxDepth before gaps after sc = some sc := by
  induction gaps generalizing before with
  | nil => rfl
  | cons d gaps ih =>
    rw [List.all_cons, Bool.and_eq_true] at hgaps
    have hd := hskip [] d gaps hgaps.1 rfl hgaps.2
    rw [List.append_nil] at hd
    rw [walk_cons_of hd]
    refine ih hgaps.2 fun seen e later he hseen hlater => ?_
    rw [List.append_assoc]
    exact hskip (d :: seen) e later he (by rw [List.all_cons, hgaps.1, hseen]; rfl) hlater

/-- A state that ignores gaps. -/
theorem walk_gaps_of_skip (hx : ∀ d, isGap d = true → (grammar x).actionFor [d] = .skip)
    (hgaps : gaps.all isGap = true) (before after : Text) :
    walk maxDepth before gaps after ⟨x :: outer, k⟩ = some ⟨x :: outer, k⟩ := by
  refine walk_gaps hgaps fun seen d later hd _ _ => ?_
  rw [handle_cons rfl, hx d hd]
  rfl

section

variable {following preceding : Text} {action : Action StateName}

/-- A separator follows. -/
theorem walk_gaps_of_following (hx : ∀ d, isGap d = true →
      (grammar x).actionFor [d] = .besideSeparator following preceding action)
    (hc : following.contains c = true) (hsolid : isGap c = false) (hgaps : gaps.all isGap = true)
    (before after : Text) :
    walk maxDepth before gaps (c :: after) ⟨x :: outer, k⟩ = some ⟨x :: outer, k⟩ := by
  refine walk_gaps hgaps fun seen d later hd _ hlater => ?_
  have hbeside : (⟨maxDepth, before ++ seen, d :: (later ++ c :: after)⟩ : Spot).isBesideSeparator
      following preceding = true := by
    rw [Spot.isBesideSeparator, List.drop_one, List.tail_cons,
      List.dropWhile_append_of_pos (List.all_eq_true.1 hlater), List.dropWhile_cons, hsolid,
      if_neg Bool.false_ne_true, List.head?_cons, Option.any_some, hc, Bool.true_or]
  rw [handle_cons rfl, hx d hd, act_besideSeparator, hbeside, if_pos rfl]

/-- A separator stands before them. -/
theorem walk_gaps_of_preceding (hx : ∀ d, isGap d = true →
      (grammar x).actionFor [d] = .besideSeparator following preceding action)
    (hc : preceding.contains c = true) (hsolid : isGap c = false) (hgaps : gaps.all isGap = true)
    (before after : Text) :
    walk maxDepth (before ++ [c]) gaps after ⟨x :: outer, k⟩ = some ⟨x :: outer, k⟩ := by
  refine walk_gaps hgaps fun seen d later hd hseen _ => ?_
  have hbeside : (⟨maxDepth, before ++ [c] ++ seen, d :: (later ++ after)⟩ : Spot).isBesideSeparator
      following preceding = true := by
    rw [Spot.isBesideSeparator, List.reverse_append,
      List.dropWhile_append_of_pos (by simpa using hseen), List.reverse_concat,
      List.dropWhile_cons, hsolid, if_neg Bool.false_ne_true, List.head?_cons, Option.any_some,
      hc, Bool.or_true]
  rw [handle_cons rfl, hx d hd, act_besideSeparator, hbeside, if_pos rfl]

end

/-- Somewhere after the start of an address the tokens lead from one draft to another one, whatever
gaps stand before them. -/
def Leads (maxDepth : Int) (start : Nat) (tokens : List Text) (sc sc' : Draft) : Prop :=
  ∀ before text after, start < before.length → Spaced tokens text →
    walk maxDepth before text after sc = some sc'

namespace Leads

theorem append (hfirst : Leads maxDepth start first sc sc')
    (hsecond : Leads maxDepth start second sc' sc'') :
    Leads maxDepth start (first ++ second) sc sc'' := by
  intro before text after hbefore h
  obtain ⟨front, back, rfl, hfront, hback⟩ := h.split
  rw [walk_append_of (hfirst _ _ _ hbefore hfront)]
  exact hsecond _ _ _ (by rw [List.length_append]; omega) hback

theorem single (h : ∀ gaps before after, gaps.all isGap = true → start < before.length →
      walk maxDepth before (gaps ++ token) after sc = some sc') :
    Leads maxDepth start [token] sc sc' := by
  intro before text after hbefore htext
  cases htext with
  | cons hgaps hmore =>
    cases hmore
    rw [List.append_nil]
    exact h _ _ _ hgaps hbefore

/-- The gaps before a token are skipped. -/
theorem of_skip (hgaps : ∀ gaps before after, gaps.all isGap = true →
      walk maxDepth before gaps (token ++ after) sc = some sc)
    (htoken : ∀ before after, start < before.length →
      walk maxDepth before token after sc = some sc') :
    Leads maxDepth start [token] sc sc' := by
  refine single fun gaps before after h hbefore => ?_
  rw [walk_append_of (hgaps gaps _ _ h)]
  exact htoken _ _ (by rw [List.length_append]; omega)

end Leads

end Draft

/-! ## Addresses -/

/-- The type or the name of a node in quotes. -/
def quoted (text : Text) : Text := '"' :: Format.escaped text ++ ['"']

/-- The tokens of a node with its name. -/
def nodeTokens (n : Text × Text) : List Text := [['/'], quoted n.1, ['='], quoted n.2]

/-- Nodes with type and name. -/
def namedNodes (nodes : List (Text × Text)) : List Node :=
  nodes.map fun n => ⟨n.1, some n.2⟩

namespace Sketch

/-- The sketch of a line that has an address behind it, which starts somewhere on the line. -/
def addressedFrom (start : Nat) (address : List Node) : Sketch :=
  { addressed address with addressStart := some start }

/-- The sketch after the type and the name of a node that follows an address. -/
def naming (start : Nat) (address : List Node) (n : Text × Text) : Sketch :=
  { addressedFrom start (address ++ [⟨n.1, none⟩]) with buffer := n.2, expectsName := true }

variable {start : Nat} {address : List Node} {n : Text × Text} {p : Spot}

theorem nodeDone_typeFrom (haddress : endsOnType address = false) (htype : n.1.isEmpty = false)
    (hp : p.character? = some '=') :
    nodeDone p { addressedFrom start address with buffer := n.1 } =
      some { addressedFrom start (address ++ [⟨n.1, none⟩]) with expectsName := true } := by
  simp [nodeDone, hp, htype, haddress, addressed, addressedFrom, addNode, towardsOperation]

theorem nodeDone_naming (hname : n.2.isEmpty = false) (hp : p.character? ≠ some '=') :
    nodeDone p (naming start address n) =
      some (addressedFrom start (address ++ [⟨n.1, some n.2⟩])) := by
  have hpending : endsOnType (address ++ [⟨n.1, none⟩]) = true := endsOnType_concat _ _
  simp [nodeDone, naming, hp, hname, hpending, addressed, addressedFrom, nameNode, modify_concat]

end Sketch

namespace Draft

open StateName

variable {maxDepth : Int} {k : Sketch} {gaps text before after : Text} {c : Char} {start : Nat}
  {address : List Node} {n : Text × Text}

/-- A quoted type or name after its separator. -/
theorem walk_quoted (hroom : quotesStates.length < maxDepth)
    (hc : ['/', '='].contains c = true) (hgaps : gaps.all isGap = true)
    (before text after : Text) (k : Sketch) :
    walk maxDepth (before ++ [c]) (gaps ++ quoted text) after ⟨addressStates, k⟩ =
      some ⟨nodeStates, { k.fresh with buffer := text }⟩ := by
  have hsolid : isGap c = false := by
    simp only [List.contains_cons, List.contains_nil, Bool.or_false, Bool.or_eq_true,
      beq_iff_eq] at hc
    rcases hc with rfl | rfl <;> rfl
  have hskip := @walk_gaps_of_preceding maxDepth _ commandStates k gaps c _ _ _
    (fun d hd => actionFor_gap (x := .address) rfl hd) hc hsolid hgaps before (quoted text ++ after)
  rw [walk_append_of hskip, quoted, List.cons_append, walk_cons_of (handle_address_quote rfl
    (Int.lt_trans (by decide) hroom)), walk_escaped (.inr hroom)]
  rfl

/-- Gaps in a node, before a separator. -/
theorem walk_gaps_node (hc : ['=', '/', ':'].contains c = true) (hsolid : isGap c = false)
    (hgaps : gaps.all isGap = true) (before after : Text) (k : Sketch) :
    walk maxDepth before gaps (c :: after) ⟨nodeStates, k⟩ = some ⟨nodeStates, k⟩ :=
  walk_gaps_of_following (fun _ hd => actionFor_gap (x := .node) rfl hd) hc hsolid hgaps before after

/-- A node after its `/`. -/
theorem walk_typeAndName_spaced (hroom : quotesStates.length < maxDepth)
    (haddress : Sketch.endsOnType address = false) (htype : n.1.isEmpty = false)
    (htext : Spaced (nodeTokens n).tail text) (before after : Text) :
    walk maxDepth (before ++ ['/']) text after
        ⟨addressStates, Sketch.addressedFrom start address⟩ =
      some ⟨nodeStates, Sketch.naming start address n⟩ := by
  obtain _ | @⟨gaps₁, _, _, _, hgaps₁, htext⟩ := htext
  obtain _ | @⟨gaps₂, _, _, _, hgaps₂, htext⟩ := htext
  obtain _ | @⟨gaps₃, _, _, _, hgaps₃, htext⟩ := htext
  cases htext
  have hequals (before after : Text) : handle ⟨maxDepth, before, '=' :: after⟩
      ⟨nodeStates, { (Sketch.addressedFrom start address).fresh with buffer := n.1 }⟩ =
        some ⟨addressStates, { Sketch.addressedFrom start (address ++ [⟨n.1, none⟩]) with
          expectsName := true }⟩ :=
    handle_node_equals rfl (Int.lt_trans (by decide) hroom)
      (Sketch.nodeDone_typeFrom haddress htype rfl)
  rw [← List.append_assoc, walk_append_of (walk_quoted hroom rfl hgaps₁ _ _ _ _),
    walk_append_of (walk_gaps_node rfl rfl hgaps₂ _ _ _), List.cons_append,
    walk_cons_of (hequals _ _), List.nil_append, List.append_nil,
    walk_quoted hroom rfl hgaps₃]
  rfl

/-- The `/` after a node with its name. -/
theorem handle_naming_slash (hroom : quotesStates.length < maxDepth)
    (hname : n.2.isEmpty = false) (hbefore : start < before.length) (after : Text) :
    handle ⟨maxDepth, before, '/' :: after⟩ ⟨nodeStates, Sketch.naming start address n⟩ =
      some ⟨addressStates, Sketch.addressedFrom start (address ++ [⟨n.1, some n.2⟩])⟩ := by
  refine handle_node_slash rfl (Int.lt_trans (by decide) hroom)
    (Sketch.nodeDone_naming hname (by simp [Spot.character?])) ?_
  have hstart : start ≠ before.length := Nat.ne_of_lt hbefore
  simp [Sketch.react, Sketch.entered, Sketch.towardsOperation, Sketch.addressedFrom,
    Sketch.addressed, hstart]

/-- A further node. -/
theorem leads_node {m : Text × Text} (hroom : quotesStates.length < maxDepth)
    (hname : n.2.isEmpty = false) (htype : m.1.isEmpty = false) :
    Leads maxDepth start (nodeTokens m) ⟨nodeStates, Sketch.naming start address n⟩
      ⟨nodeStates, Sketch.naming start (address ++ [⟨n.1, some n.2⟩]) m⟩ := by
  intro before text after hbefore htext
  obtain _ | @⟨gaps, _, _, _, hgaps, htext⟩ := htext
  have hbefore' : start < (before ++ gaps).length := by
    rw [List.length_append]
    omega
  rw [walk_append_of (walk_gaps_node rfl rfl hgaps _ _ _), List.cons_append,
    walk_cons_of (handle_naming_slash hroom hname hbefore' _), List.nil_append]
  exact walk_typeAndName_spaced hroom (Sketch.endsOnType_concat _ _) htype htext _ _

/-- The `:` after a node. -/
theorem leads_colon (hroom : quotesStates.length < maxDepth) (hname : n.2.isEmpty = false) :
    Leads maxDepth start [[':']] ⟨nodeStates, Sketch.naming start address n⟩
      ⟨operationStates, Sketch.addressedFrom start (address ++ [⟨n.1, some n.2⟩])⟩ := by
  refine Leads.of_skip (fun gaps before after h => walk_gaps_node rfl rfl h _ _ _)
    fun before after _ => ?_
  have hend : Sketch.endsOnType (address ++ [⟨n.1, some n.2⟩]) = false :=
    Sketch.endsOnType_concat _ _
  refine walk_cons_of (handle_node_colon rfl (Int.lt_trans (by decide) hroom)
    (Sketch.nodeDone_naming hname (by simp [Spot.character?])) ?_)
  simp [Sketch.react, Sketch.entered, Sketch.towardsOperation, Sketch.addressedFrom,
    Sketch.addressed, hend]

/-- Further nodes and the `:` after them. -/
theorem leads_nodes {nodes : List (Text × Text)} (hroom : quotesStates.length < maxDepth)
    (hname : n.2.isEmpty = false)
    (hnodes : nodes.all (fun m => !m.1.isEmpty && !m.2.isEmpty) = true) :
    Leads maxDepth start (nodes.flatMap nodeTokens ++ [[':']])
      ⟨nodeStates, Sketch.naming start address n⟩
      ⟨operationStates, Sketch.addressedFrom start
        (address ++ ⟨n.1, some n.2⟩ :: namedNodes nodes)⟩ := by
  induction nodes generalizing address n with
  | nil => exact leads_colon hroom hname
  | cons m nodes ih =>
    simp only [List.all_cons, Bool.and_eq_true, Bool.not_eq_true'] at hnodes
    obtain ⟨⟨htype, hname'⟩, hnodes⟩ := hnodes
    have hrest : Leads maxDepth start (nodes.flatMap nodeTokens ++ [[':']])
        ⟨nodeStates, Sketch.naming start (address ++ [⟨n.1, some n.2⟩]) m⟩ _ := ih hname' hnodes
    rw [List.append_assoc] at hrest
    rw [List.flatMap_cons, List.append_assoc]
    exact (leads_node hroom hname htype).append hrest

/-- An address and the `:` after it. -/
theorem walk_addressTokens {nodes : List (Text × Text)} (hroom : quotesStates.length < maxDepth)
    (hnodes : nodes.all (fun m => !m.1.isEmpty && !m.2.isEmpty) = true)
    (htext : Spaced (nodes.flatMap nodeTokens ++ [[':']]) text) (after : Text) :
    ∃ start, start < text.length ∧
      walk maxDepth [] text after ⟨commandStates, { format := some {} }⟩ =
        some ⟨operationStates, Sketch.addressedFrom start (namedNodes nodes)⟩ := by
  have hroom' : addressStates.length < maxDepth := Int.lt_trans (by decide) hroom
  have hskip {gaps : Text} (hgaps : gaps.all isGap = true) (after : Text) :
      walk maxDepth [] gaps after ⟨commandStates, { format := some {} }⟩ =
        some ⟨commandStates, { format := some {} }⟩ :=
    walk_gaps_of_skip (fun _ hd => actionFor_gap (x := .command) rfl hd) hgaps [] after
  cases nodes with
  | nil =>
    obtain _ | @⟨gaps, _, _, _, hgaps, htext⟩ := htext
    cases htext
    refine ⟨gaps.length, by simp, ?_⟩
    have hcolon : handle ⟨maxDepth, gaps, ':' :: after⟩
        ⟨commandStates, { format := some {} }⟩ =
          some ⟨operationStates, Sketch.addressedFrom gaps.length []⟩ := by
      rw [handle_command_address rfl (.inr (.inl rfl)) (Int.lt_trans (by decide) hroom')]
      exact act_enter hroom' rfl
    rw [walk_append_of (hskip hgaps _)]
    exact walk_cons_of hcolon
  | cons n nodes =>
    obtain _ | @⟨gaps, _, rest, _, hgaps, htext⟩ := htext
    obtain ⟨node, more, rfl, hnode, hmore⟩ :=
      @Spaced.split (nodeTokens n).tail (nodes.flatMap nodeTokens ++ [[':']]) _ htext
    simp only [List.all_cons, Bool.and_eq_true, Bool.not_eq_true'] at hnodes
    obtain ⟨⟨htype, hname⟩, hnodes⟩ := hnodes
    refine ⟨gaps.length, by simp, ?_⟩
    have hslash (after : Text) : handle ⟨maxDepth, gaps, '/' :: after⟩
        ⟨commandStates, { format := some {} }⟩ =
          some ⟨addressStates, Sketch.addressedFrom gaps.length []⟩ := by
      rw [handle_command_address rfl (.inl rfl) (Int.lt_trans (by decide) hroom')]
      refine enter_nodeSeparator rfl hroom' ?_
      simp [Sketch.react, Sketch.entered, Sketch.towardsOperation, Sketch.addressedFrom,
        Sketch.addressed]
    rw [walk_append_of (hskip hgaps _), List.cons_append, List.nil_append, List.nil_append,
      walk_cons_of (hslash _), walk_append_of (walk_typeAndName_spaced hroom
        Sketch.endsOnType_nil htype hnode gaps _)]
    exact leads_nodes hroom hname hnodes _ _ _ (by simp) hmore

end Draft

/-! ## Lists -/

/-- The tokens of an item of a list. -/
def itemTokens (item : Text × Text) : List Text := [item.1, ['='], item.2]

/-- The tokens of a list after the character that opens it. -/
def listTokens (separator closing : Char) (items : List (Text × Text)) : List Text :=
  [[separator]].intercalate (items.map itemTokens) ++ [[closing]]

theorem listTokens_cons_cons (separator closing : Char) (item next : Text × Text)
    (items : List (Text × Text)) :
    listTokens separator closing (item :: next :: items) =
      (itemTokens item ++ [[separator]]) ++ listTokens separator closing (next :: items) := by
  rw [listTokens, List.map_cons, intercalate_cons (itemTokens item) (by simp), listTokens,
    List.append_assoc, List.append_assoc, List.append_assoc]

/-- What properties say. -/
def saidProperties (items : List (Text × Text)) : List Said :=
  items.map fun item => ⟨some item.1, some item.2, true⟩

namespace Draft

open StateName

variable {maxDepth : Int} {x : StateName} {outer : List StateName} {k : Sketch}
  {gaps text value before after : Text} {d : Char} {start : Nat} {item : Text × Text}

/-- A value with the gaps around it. -/
theorem walk_value_spaced {gaps' : Text}
    (hx : ∀ d, isGap d = true → (grammar x).actionFor [d] = .content)
    (hvalue : endsValue maxDepth (x :: outer) false value = true) (hgaps : gaps.all isGap = true)
    (hgaps' : gaps'.all isGap = true) (before after : Text) (k : Sketch) :
    walk maxDepth before (gaps ++ (value ++ gaps')) after ⟨x :: outer, k⟩ =
      some ⟨x :: outer, k.append (gaps ++ (value ++ gaps'))⟩ := by
  obtain ⟨active, hscan, hactive⟩ := (Option.any_eq_true _ _).1 hvalue
  cases eq_of_beq hactive
  rw [walk_append_of (walk_content hx hgaps _ _ _), walk_append_of (walk_of_scan _ _ hscan),
    walk_content hx hgaps', Sketch.append_append, Sketch.append_append]

/-- A value and the character that ends it, whatever gaps stand around the value. -/
theorem leads_value {sc : Draft} (hx : ∀ d, isGap d = true → (grammar x).actionFor [d] = .content)
    (hvalue : endsValue maxDepth (x :: outer) false value = true) (htrim : trim value = value)
    (hend : ∀ before after text : Text, trim text = value →
      handle ⟨maxDepth, before, d :: after⟩ ⟨x :: outer, k.append text⟩ = some sc) :
    Leads maxDepth start [value, [d]] ⟨x :: outer, k⟩ sc := by
  intro before text after _ htext
  obtain _ | @⟨gaps, _, _, _, hgaps, htext⟩ := htext
  obtain _ | @⟨gaps', _, _, _, hgaps', htext⟩ := htext
  cases htext
  have hbuffer : trim (gaps ++ (value ++ gaps')) = value :=
    (trim_append (all_isBlank_of_gaps hgaps) (all_isBlank_of_gaps hgaps')).trans htrim
  rw [← List.append_assoc value, ← List.append_assoc gaps,
    walk_append_of (walk_value_spaced hx hvalue hgaps hgaps' _ _ _)]
  exact walk_cons_of (hend _ _ _ hbuffer)

/-! ### Properties -/

/-- The name of a property and the `=` after it. -/
theorem leads_property_equals {name : Text} (htrim : trim name = name)
    (hroom : propertyStates.length < maxDepth) :
    Leads maxDepth start [['=']] ⟨propertyStates, { k.fresh with buffer := name }⟩
      ⟨propertyValueStates, { k.fresh with name := some name }⟩ := by
  refine Leads.single fun gaps before after hgaps _ => ?_
  have hname : trim (name ++ gaps) = name := by
    rw [← List.nil_append (name ++ gaps), trim_append rfl (all_isBlank_of_gaps hgaps), htrim]
  have hnamed : (({ k.fresh with buffer := name } : Sketch).append gaps).named =
      { k.fresh with name := some name } := by
    rw [Sketch.named]
    simp only [Sketch.append, hname]
    rfl
  have hequals := handle_property_equals
    (p := ⟨maxDepth, before ++ gaps, '=' :: ([] ++ after)⟩)
    (k := ({ k.fresh with buffer := name } : Sketch).append gaps) rfl hroom
  rw [walk_append_of (walk_content (fun _ => actionFor_gap (x := .property) rfl) hgaps _ _ _),
    walk_cons_of hequals, hnamed]
  rfl

/-- The value of a property and the character after it. -/
theorem leads_propertyValue {name : Text} (hends : d = ',' ∨ d = ')')
    (hname : name.isEmpty = false) (htrim : trim value = value)
    (hvalue : endsValue maxDepth propertyValueStates false value = true)
    (hlist : k.inPropertyList = true) (hroom : propertyStates.length < maxDepth) :
    Leads maxDepth start [value, [d]] ⟨propertyValueStates, { k.fresh with name := some name }⟩
      (if d = ',' then ⟨propertyListStates, k.having [⟨some name, some value, true⟩]⟩
        else ⟨addressStates, { k.having [⟨some name, some value, true⟩] with
          inPropertyList := false }⟩) := by
  refine leads_value (fun _ => actionFor_gap (x := .propertyValue) rfl) hvalue htrim
    fun before after text htext => ?_
  have hend := handle_propertyValue_end (p := ⟨maxDepth, before, d :: after⟩)
    (k := ({ k.fresh with name := some name } : Sketch).append text) rfl hends rfl hname
    (Int.lt_trans (by decide) hroom)
  have hdone : ((({ k.fresh with name := some name } : Sketch).append text).addArgument (some name)
      (some value)).fresh = k.having [⟨some name, some value, true⟩] := by
    rw [← hlist]
    rfl
  rwa [show (({ k.fresh with name := some name } : Sketch).append text).buffer = text from rfl,
    htext, hdone] at hend

/-- A property and the character after it. -/
theorem leads_property (hends : d = ',' ∨ d = ')') (hlist : k.inPropertyList = true)
    (hitem : Said.isProperty maxDepth ⟨some item.1, some item.2, true⟩ = true) :
    Leads maxDepth start (itemTokens item ++ [[d]]) ⟨propertyListStates, k⟩
      (if d = ',' then ⟨propertyListStates, k.having [⟨some item.1, some item.2, true⟩]⟩
        else ⟨addressStates, { k.having [⟨some item.1, some item.2, true⟩] with
          inPropertyList := false }⟩) := by
  simp only [Said.isProperty, Bool.and_eq_true, Bool.not_eq_true', decide_eq_true_eq] at hitem
  obtain ⟨-, ⟨⟨⟨⟨hname, hne⟩, htrim⟩, hvalue⟩, hroom⟩, hends'⟩ := hitem
  have hstart : Leads maxDepth start [item.1] ⟨propertyListStates, k⟩
      ⟨propertyStates, { k.fresh with buffer := item.1 }⟩ :=
    Leads.of_skip
      (fun gaps before after h => walk_gaps_of_skip
        (fun _ => actionFor_gap (x := .propertyList) rfl) h _ _)
      fun before after _ => walk_property_start hname hne htrim hroom _ _ _
  exact hstart.append ((leads_property_equals htrim hroom).append
    (leads_propertyValue hends hne hvalue hends' hlist hroom))

/-- The properties of a list and the `)` after them. -/
theorem leads_properties {items : List (Text × Text)} (hk : k.fresh = k)
    (hlist : k.inPropertyList = true)
    (hitems : (saidProperties items).all (Said.isProperty maxDepth) = true)
    (hroom : commandStates.length < maxDepth) :
    Leads maxDepth start (listTokens ',' ')' items) ⟨propertyListStates, k⟩
      ⟨addressStates, { k.having (saidProperties items) with inPropertyList := false }⟩ := by
  induction items generalizing k with
  | nil =>
    rw [show saidProperties [] = [] from rfl, Sketch.having_nil hk]
    exact Leads.of_skip
      (fun gaps before after h => walk_gaps_of_skip
        (fun _ => actionFor_gap (x := .propertyList) rfl) h _ _)
      fun before after _ => walk_cons_of
        ((handle_cons rfl).trans (leave_propertyList (n := 994) rfl rfl hroom))
  | cons item items ih =>
    rw [saidProperties, List.map_cons, List.all_cons, Bool.and_eq_true] at hitems
    cases items with
    | nil => exact leads_property (.inr rfl) hlist hitems.1
    | cons next items =>
      have hnext := ih (k := k.having [⟨some item.1, some item.2, true⟩]) rfl hlist hitems.2
      rw [Sketch.having_having] at hnext
      rw [listTokens_cons_cons]
      exact (leads_property (.inl rfl) hlist hitems.1).append hnext

/-! ### Headers -/

/-- Gaps in a header list are skipped. -/
theorem walk_gaps_headerList (hgaps : gaps.all isGap = true) (before after : Text) (k : Sketch) :
    walk maxDepth before gaps after ⟨headerListStates, k⟩ = some ⟨headerListStates, k⟩ :=
  walk_gaps_of_skip (fun _ => actionFor_gap (x := .headerList) rfl) hgaps before after

/-- The `=` after the name of a header. -/
theorem leads_header_equals {name : Text} (htrim : trim name = name)
    (hroom : headerStates.length < maxDepth) :
    Leads maxDepth start [['=']] ⟨headerStates, { k.fresh with buffer := name }⟩
      ⟨headerValueStates, { k.fresh with name := some name }⟩ := by
  refine Leads.of_skip (fun gaps before after h => walk_gaps_of_following
    (fun _ => actionFor_gap (x := .header) rfl) rfl rfl h _ _) fun before after _ => ?_
  have hnamed : ({ k.fresh with buffer := name } : Sketch).named =
      { k.fresh with name := some name } := by
    rw [Sketch.named]
    simp only [htrim]
    rfl
  rw [walk_cons_of (handle_header_equals rfl hroom), hnamed]
  rfl

/-- The value of a header and the character after it. -/
theorem leads_headerValue {name : Text} (hends : d = ';' ∨ d = '}') (hname : name.isEmpty = false)
    (hnew : name ∉ k.headers.map Prod.fst) (htrim : trim value = value)
    (hsolid : value.isEmpty = false)
    (hvalue : endsValue maxDepth headerValueStates false value = true)
    (hroom : headerStates.length < maxDepth) :
    Leads maxDepth start [value, [d]] ⟨headerValueStates, { k.fresh with name := some name }⟩
      ⟨if d = ';' then headerListStates else addressStates,
        { k.fresh with headers := k.headers ++ [(name, value)] }⟩ := by
  refine leads_value (fun _ => actionFor_gap (x := .headerValue) rfl) hvalue htrim
    fun before after text htext => ?_
  have hend := handle_headerValue_end (p := ⟨maxDepth, before, d :: after⟩)
    (k := ({ k.fresh with name := some name } : Sketch).append text) rfl hends rfl hname
    ((congrArg List.isEmpty htext).trans hsolid) (Int.lt_trans (by decide) hroom)
  rwa [show (({ k.fresh with name := some name } : Sketch).append text).buffer = text from rfl,
    htext, show (({ k.fresh with name := some name } : Sketch).append text).headers = k.headers
      from rfl, Entries.insert_of_notMem hnew] at hend

/-- A header and the character after it. -/
theorem leads_header (hends : d = ';' ∨ d = '}') (hnew : item.1 ∉ k.headers.map Prod.fst)
    (hitem : isHeader maxDepth item = true) :
    Leads maxDepth start (itemTokens item ++ [[d]]) ⟨headerListStates, k⟩
      ⟨if d = ';' then headerListStates else addressStates,
        { k.fresh with headers := k.headers ++ [item] }⟩ := by
  simp only [isHeader, Bool.and_eq_true, Bool.not_eq_true', decide_eq_true_eq,
    bne_iff_ne] at hitem
  obtain ⟨⟨⟨⟨⟨⟨⟨hname, hne⟩, hbrace⟩, htrim⟩, hvalue⟩, hsolid⟩, hroom⟩, hends'⟩ := hitem
  have hstart : Leads maxDepth start [item.1] ⟨headerListStates, k⟩
      ⟨headerStates, { k.fresh with buffer := item.1 }⟩ :=
    Leads.of_skip (fun gaps before after h => walk_gaps_headerList h _ _ _)
      fun before after _ => walk_headerName hname hne hbrace (Int.lt_trans (by decide) hroom) _ _ _
  exact hstart.append ((leads_header_equals htrim hroom).append
    (leads_headerValue hends hne hnew hvalue hsolid hends' hroom))

/-- The headers of a list and the `}` after them. -/
theorem leads_headers {items : List (Text × Text)} (hk : k.fresh = k)
    (hitems : items.all (isHeader maxDepth) = true)
    (hkeys : ((k.headers ++ items).map Prod.fst).Nodup)
    (hroom : commandStates.length < maxDepth) :
    Leads maxDepth start (listTokens ';' '}' items) ⟨headerListStates, k⟩
      ⟨addressStates, { k with headers := k.headers ++ items }⟩ := by
  induction items generalizing k with
  | nil =>
    have hclose (before after : Text) : handle ⟨maxDepth, before, '}' :: ([] ++ after)⟩
        ⟨headerListStates, k⟩ = some ⟨addressStates, k⟩ := by
      rw [handle_cons rfl, show (grammar .headerList).actionFor ['}'] = .leave from rfl,
        act_leave rfl, show (grammar .address).onReturn = .leaveOnGap from rfl,
        return_address (d := '}') rfl hroom]
      rfl
    rw [List.append_nil]
    exact Leads.of_skip (fun gaps before after h => walk_gaps_headerList h _ _ _)
      fun before after _ => walk_cons_of (hclose before after)
  | cons item items ih =>
    rw [List.all_cons, Bool.and_eq_true] at hitems
    have hnew : item.1 ∉ k.headers.map Prod.fst := by
      rw [List.map_append, List.map_cons, List.nodup_append] at hkeys
      exact fun hmem => hkeys.2.2 _ hmem _ List.mem_cons_self rfl
    cases items with
    | nil =>
      have hlast : Leads maxDepth start (itemTokens item ++ [['}']]) ⟨headerListStates, k⟩
          ⟨addressStates, { k.fresh with headers := k.headers ++ [item] }⟩ :=
        leads_header (.inr rfl) hnew hitems.1
      rw [hk] at hlast
      exact hlast
    | cons next items =>
      have hfirst : Leads maxDepth start (itemTokens item ++ [[';']]) ⟨headerListStates, k⟩
          ⟨headerListStates, { k.fresh with headers := k.headers ++ [item] }⟩ :=
        leads_header (.inl rfl) hnew hitems.1
      have hnext := ih (k := { k.fresh with headers := k.headers ++ [item] }) rfl hitems.2
        (by simpa using hkeys)
      rw [listTokens_cons_cons]
      refine hfirst.append ?_
      rw [hk] at hnext ⊢
      simpa using hnext

end Draft
end CommandLine
