/-
# `CommandLine.Proofs.AddressText` — an address written and read again

A node type or name is written bare, or in quotes if it holds a character that has a meaning in an
address.  Either way it is read as it is written, unless it is written bare and holds a gap or
begins with a brace (`isNodeText`, `walk_node`).

An address is read node by node.  Within it the last node is still in the making, so that the
invariant of the walk is not about the address that the sketch has, but about the address that it
will have once the node is done (`Sketch.Addresses`); a separator and the end of the line finish the
node.  A type without a name stands only at the end, and must then not be one of the steps `.` and
`..` (`isAddress`, `walk_address`).
-/
import CommandLine.Proofs.ArgumentText

namespace CommandLine

open Text

/-! ## Actions of the address states -/

theorem actionFor_address (d : Char) :
    (grammar .address).actionFor [d] =
      if d = '/' then .enter .nodeSeparator else if d = ':' then .enter .operationSeparator
      else if d = '{' then .enter .headerList
      else if isGap d then .besideSeparator ['/', '=', ':', '{'] ['/', '='] .leave
      else .enter .node := by
  rw [State.actionFor_singleton]
  simp only [grammar, Grammar.address, State.gapAction, lookup_upon, List.lookup_nil]
  split
  · rfl
  · split
    · rfl
    · split <;> rfl

/-- A character that stands for itself in a node. -/
def isNodeChar (d : Char) : Bool := !isGap d && !Format.nodeSpecials.contains d

theorem isNodeChar_iff {d : Char} : isNodeChar d = true ↔
    isGap d = false ∧ d ≠ ' ' ∧ d ≠ '\t' ∧ d ≠ '/' ∧ d ≠ ':' ∧ d ≠ '=' ∧ d ≠ '"' ∧ d ≠ '\\' := by
  simp only [isNodeChar, Format.nodeSpecials, Bool.and_eq_true, Bool.not_eq_true',
    List.contains_cons, List.contains_nil, Bool.or_false, Bool.or_eq_false_iff,
    beq_eq_false_iff_ne]

theorem actionFor_node_of_isNodeChar {d : Char} (hd : isNodeChar d = true) :
    (grammar .node).actionFor [d] = .content := by
  obtain ⟨hgap, -, -, hslash, hcolon, hequals, hquote, hmark⟩ := isNodeChar_iff.1 hd
  rw [State.actionFor_singleton]
  simp [grammar, Grammar.node, hslash, hcolon, hequals, hquote, hmark, hgap]

theorem actionFor_nodeQuotes (d : Char) :
    (grammar .nodeQuotes).actionFor [d] =
      if d = '"' then .leave else if d = '\\' then .escape .nodeEscape else .content := by
  rw [State.actionFor_singleton]
  show ((List.lookup [d] [upon '"' .leave, upon '\\' (.escape StateName.nodeEscape)]).getD
    (if isGap d then .content else .content)) = _
  rw [ite_self]
  simp only [lookup_upon, List.lookup_nil]
  split
  · rfl
  · split <;> rfl

theorem actionFor_nodeEscape (d : Char) :
    (grammar .nodeEscape).actionFor [d] = .contentAndLeave := by
  rw [State.actionFor_singleton]
  exact ite_self _

/-- The states that are active in a command. -/
abbrev commandStates : List StateName := [.command]

/-- The states that are active in an address. -/
abbrev addressStates : List StateName := .address :: commandStates

/-- The states that are active in a node. -/
abbrev nodeStates : List StateName := .node :: addressStates

/-- The states that are active in quotes in a node. -/
abbrev quotesStates : List StateName := .nodeQuotes :: nodeStates

/-- The text can be a type or a name of a node. -/
def isNodeText (maxDepth : Int) (text : Text) : Bool :=
  if Format.isBare text then
    text.all isNodeChar && text.head? != some '{' && addressStates.length < maxDepth
  else
    !text.isEmpty && nodeStates.length < maxDepth &&
      (text.all (fun d => d != '\\' && d != '"') || quotesStates.length < maxDepth)

namespace Draft

open StateName

variable {p : Spot} {n : Nat} {d : Char} {k k' : Sketch} {maxDepth : Int}

/-! ## Nodes -/

theorem walk_nodeChars {text : Text} (htext : text.all isNodeChar = true)
    (before after : Text) (k : Sketch) :
    walk maxDepth before text after ⟨nodeStates, k⟩ = some ⟨nodeStates, k.append text⟩ :=
  walk_content (fun _ => actionFor_node_of_isNodeChar) htext before after k

theorem handle_nodeQuotes (hd : p.character? = some d) :
    handle p ⟨quotesStates, k⟩ =
      if d = '"' then some ⟨nodeStates, k⟩
      else if d = '\\' then
        if p.maxDepth ≤ quotesStates.length then none
        else some ⟨nodeEscape :: quotesStates, k⟩
      else some ⟨quotesStates, k.append [d]⟩ := by
  rw [handle_cons hd, actionFor_nodeQuotes]
  split
  · exact act_leave rfl
  split
  · show act p 1000 (.enter nodeEscape) _ = _
    split
    · next hfull => exact act_enter_full hfull
    · next hroom => exact act_enter (Int.not_le.1 hroom) rfl
  · exact act_content hd

theorem handle_nodeEscape (hd : p.character? = some d) :
    handle p ⟨nodeEscape :: quotesStates, k⟩ =
      some ⟨quotesStates, k.append [d]⟩ := by
  rw [handle_cons hd, actionFor_nodeEscape, act_contentAndLeave hd]
  exact act_leave rfl

/-- What stands in quotes in a node, up to the closing quote. -/
theorem walk_escaped {text : Text}
    (hroom : text.all (fun d => d != '\\' && d != '"') = true ∨
      quotesStates.length < maxDepth) (before after : Text) (k : Sketch) :
    walk maxDepth before (Format.escaped text ++ ['"']) after
        ⟨quotesStates, k⟩ =
      some ⟨nodeStates, k.append text⟩ := by
  induction text generalizing before k with
  | nil =>
    rw [show Format.escaped [] ++ ['"'] = ['"'] from rfl, walk_cons, handle_nodeQuotes rfl,
      if_pos rfl, Sketch.append_nil]
    rfl
  | cons d text ih =>
    have hmore : text.all (fun d => d != '\\' && d != '"') = true ∨
        quotesStates.length < maxDepth :=
      hroom.imp_left fun hall => (Bool.and_eq_true_iff.1 (List.all_cons ▸ hall)).2
    have hnext (before : Text) := ih hmore before (k.append [d])
    rw [show (k.append [d]).append text = k.append (d :: text) by
      simp [Sketch.append]] at hnext
    by_cases hspecial : d = '\\' ∨ d = '"'
    · have hescaped : Format.escaped (d :: text) = '\\' :: d :: Format.escaped text := by
        rw [Format.escaped, List.flatMap_cons, if_pos (by simpa using hspecial)]
        rfl
      have hroom : quotesStates.length < maxDepth := by
        refine hroom.resolve_left fun hall => ?_
        rw [List.all_cons, Bool.and_eq_true, Bool.and_eq_true, bne_iff_ne, bne_iff_ne] at hall
        exact hspecial.elim hall.1.1 hall.1.2
      rw [hescaped, List.cons_append, List.cons_append, walk_cons, handle_nodeQuotes rfl,
        if_neg (by decide), if_pos rfl, if_neg (Int.not_le.2 hroom), Option.bind_some, walk_cons,
        handle_nodeEscape rfl, Option.bind_some]
      exact hnext _
    · have hescaped : Format.escaped (d :: text) = d :: Format.escaped text := by
        rw [Format.escaped, List.flatMap_cons, if_neg (by simpa using hspecial)]
        rfl
      rw [not_or] at hspecial
      rw [hescaped, List.cons_append, walk_cons, handle_nodeQuotes rfl, if_neg hspecial.2,
        if_neg hspecial.1, Option.bind_some]
      exact hnext _

/-- What the first character of a node does. -/
theorem handle_address_node (hd : p.character? = some d) (hslash : d ≠ '/') (hcolon : d ≠ ':')
    (hbrace : d ≠ '{') (hgap : isGap d = false) (hroom : addressStates.length < p.maxDepth) :
    handle p ⟨addressStates, k⟩ =
      act p 998 ((grammar .node).actionFor [d]) ⟨nodeStates, k.fresh⟩ := by
  rw [handle_cons hd, actionFor_address, if_neg hslash, if_neg hcolon, if_neg hbrace, hgap,
    if_neg Bool.false_ne_true, act_enter hroom rfl]
  exact act_dispatch hd

/-- A double quote at the start of a node. -/
theorem handle_address_quote (hd : p.character? = some '"')
    (hroom : nodeStates.length < p.maxDepth) :
    handle p ⟨addressStates, k⟩ = some ⟨quotesStates, k.fresh⟩ := by
  have hnode : addressStates.length < p.maxDepth := Int.lt_trans (Int.lt_succ _) hroom
  rw [handle_address_node hd (by decide) (by decide) (by decide) rfl hnode]
  exact act_enter hroom rfl

/-- A type or a name is read as it is written. -/
theorem walk_node {text : Text} (htext : isNodeText maxDepth text = true)
    (before after : Text) (k : Sketch) :
    walk maxDepth before (Format.node text) after ⟨addressStates, k⟩ =
      some ⟨nodeStates, { k.fresh with buffer := text }⟩ := by
  unfold isNodeText at htext
  unfold Format.node
  split at htext
  · next hbare =>
    rw [if_pos hbare]
    cases text with
    | nil => cases hbare
    | cons d text =>
      simp only [List.all_cons, Bool.and_eq_true, decide_eq_true_eq, bne_iff_ne, List.head?_cons,
        ne_eq, Option.some.injEq] at htext
      obtain ⟨⟨⟨hd, hmore⟩, hbrace⟩, hroom⟩ := htext
      obtain ⟨hgap, -, -, hslash, hcolon, -⟩ := isNodeChar_iff.1 hd
      rw [walk_cons, handle_address_node rfl hslash hcolon hbrace hgap hroom,
        actionFor_node_of_isNodeChar hd, act_content rfl, Option.bind_some, walk_nodeChars hmore]
      rfl
  · next hquoted =>
    rw [if_neg hquoted]
    simp only [Bool.and_eq_true, Bool.or_eq_true, decide_eq_true_eq] at htext
    obtain ⟨⟨-, hroom⟩, hescapes⟩ := htext
    rw [List.cons_append, walk_cons, handle_address_quote rfl hroom, Option.bind_some,
      walk_escaped hescapes]
    rfl

/-! ## Separators of an address -/

/-- An inner state of the address has been left. -/
theorem return_address (hd : p.character? = some d) (hroom : commandStates.length < p.maxDepth) :
    act p (n + 4) .leaveOnGap ⟨addressStates, k⟩ =
      if isGap d then some ⟨argumentStates commandStates, k⟩ else some ⟨addressStates, k⟩ := by
  rw [act_leaveOnGap, hd, Option.any_some]
  split
  · rw [act_leave rfl]
    show act p (n + 3) (.enterUnlessEnd .argumentList) ⟨commandStates, k⟩ = _
    rw [act_enterUnlessEnd, Spot.isEmpty_rest hd, if_neg Bool.false_ne_true]
    exact act_enter hroom rfl
  · rfl

/-- The address starts. -/
theorem handle_command_address (hd : p.character? = some d) (hfirst : d = '/' ∨ d = ':' ∨ d = '.')
    (hroom : commandStates.length < p.maxDepth) :
    handle p ⟨commandStates, k⟩ =
      act p 998 ((grammar .address).actionFor [d])
        ⟨addressStates, { k with addressStart := some p.before.length }⟩ := by
  have haction : (grammar .command).actionFor [d] = .enter .address := by
    rcases hfirst with rfl | rfl | rfl <;> rfl
  rw [handle_cons hd, haction, act_enter hroom rfl]
  exact act_dispatch hd

theorem enter_nodeSeparator (hd : p.character? = some '/')
    (hroom : addressStates.length < p.maxDepth)
    (hreact : Sketch.react p (.entered .nodeSeparator) (.nodeSeparator :: addressStates) k =
      some k') :
    act p (n + 6) (.enter .nodeSeparator) ⟨addressStates, k⟩ = some ⟨addressStates, k'⟩ := by
  have hroom' : commandStates.length < p.maxDepth := Int.lt_trans (by decide) hroom
  rw [act_enter hroom hreact]
  show act p (n + 5) .leave _ = _
  rw [act_leave rfl]
  exact return_address hd hroom'


/-- A node is left. -/
theorem leave_node (hd : p.character? = some d) (hroom : commandStates.length < p.maxDepth)
    (hdone : k.nodeDone p = some k') :
    act p (n + 6) .leave ⟨nodeStates, k⟩ =
      if isGap d then some ⟨argumentStates commandStates, k'⟩ else some ⟨addressStates, k'⟩ := by
  have hreact : Sketch.react p (.leaving .node) nodeStates k = some k' := hdone
  rw [act_leave hreact]
  exact return_address hd hroom

/-- The `=` after the type of a node. -/
theorem handle_node_equals (hd : p.character? = some '=')
    (hroom : commandStates.length < p.maxDepth) (hdone : k.nodeDone p = some k') :
    handle p ⟨nodeStates, k⟩ = some ⟨addressStates, k'⟩ := by
  rw [handle_cons hd, show (grammar .node).actionFor ['='] = .leave from rfl,
    leave_node hd hroom hdone]
  rfl

/-- The `/` after a node. -/
theorem handle_node_slash {k'' : Sketch} (hd : p.character? = some '/')
    (hroom : addressStates.length < p.maxDepth) (hdone : k.nodeDone p = some k')
    (hreact : Sketch.react p (.entered .nodeSeparator) (.nodeSeparator :: addressStates) k' =
      some k'') :
    handle p ⟨nodeStates, k⟩ = some ⟨addressStates, k''⟩ := by
  have hroom' : commandStates.length < p.maxDepth := Int.lt_trans (by decide) hroom
  rw [handle_cons hd,
    show (grammar .node).actionFor ['/'] = .chain [.leave, .enter .nodeSeparator] from rfl,
    act_chain, leave_node hd hroom' hdone]
  exact enter_nodeSeparator hd hroom hreact

/-- The `:` after a node. -/
theorem handle_node_colon {k'' : Sketch} (hd : p.character? = some ':')
    (hroom : addressStates.length < p.maxDepth) (hdone : k.nodeDone p = some k')
    (hreact : Sketch.react p (.entered .operationSeparator)
      (.operationSeparator :: addressStates) k' = some k'') :
    handle p ⟨nodeStates, k⟩ = some ⟨.operationSeparator :: addressStates, k''⟩ := by
  have hroom' : commandStates.length < p.maxDepth := Int.lt_trans (by decide) hroom
  rw [handle_cons hd,
    show (grammar .node).actionFor [':'] = .chain [.leave, .enter .operationSeparator] from rfl,
    act_chain, leave_node hd hroom' hdone]
  exact act_enter hroom hreact

/-- A gap after a node, unless a separator follows. -/
theorem handle_node_gap (hd : p.character? = some d) (hgap : isGap d = true)
    (hroom : commandStates.length < p.maxDepth)
    (hfollows : p.isBesideSeparator ['=', '/', ':'] [] = false) (hdone : k.nodeDone p = some k') :
    handle p ⟨nodeStates, k⟩ = some ⟨argumentStates commandStates, k'⟩ := by
  have haction : (grammar .node).actionFor [d] = .besideSeparator ['=', '/', ':'] [] .leave := by
    simp only [isGap, gapCharacters, List.contains_cons, List.contains_nil, Bool.or_false,
      Bool.or_eq_true, beq_iff_eq] at hgap
    rcases hgap with rfl | rfl | rfl | rfl | rfl | rfl <;> rfl
  rw [handle_cons hd, haction, act_besideSeparator, hfollows, if_neg Bool.false_ne_true,
    leave_node hd hroom hdone, if_pos hgap]

theorem return_address_end (hrest : p.rest = []) :
    act p (n + 1) .leaveOnGap ⟨addressStates, k⟩ = some ⟨addressStates, k⟩ := by
  rw [act_leaveOnGap, Spot.character?, hrest]
  rfl

/-- The line ends in the address. -/
theorem unwinds_address (hrest : p.rest = []) :
    Unwinds p ⟨addressStates, k⟩ (some ⟨commandStates, k⟩) := by
  have hleave : leave p ⟨addressStates, k⟩ = some ⟨commandStates, k⟩ := by
    rw [leave, act_leave rfl]
    show act p 1000 (.enterUnlessEnd .argumentList) ⟨commandStates, k⟩ = _
    rw [act_enterUnlessEnd, hrest]
    rfl
  exact Unwinds.leaving rfl hleave (by simp) Unwinds.single

/-- The line ends after a node. -/
theorem finish_node (hrest : p.rest = []) (hdone : k.nodeDone p = some k') :
    finish p ⟨nodeStates, k⟩ = some ⟨[], k'⟩ := by
  have hreact : Sketch.react p (.leaving .node) nodeStates k = some k' := hdone
  have hleave : leave p ⟨nodeStates, k⟩ = some ⟨addressStates, k'⟩ := by
    rw [leave, act_leave hreact]
    exact return_address_end hrest
  exact finish_of_unwinds (Unwinds.leaving rfl hleave (by simp) (unwinds_address hrest)) rfl rfl

end Draft

/-! ## Addresses -/

namespace Sketch

/-- The sketch of a line that has an address behind it. -/
def addressed (address : List Node) : Sketch :=
  { format := some {}, addressStart := some 0, isOperation := true, address := address }

/-- With its last node the address is complete. -/
def Addresses (k : Sketch) (address : List Node) : Prop :=
  ∀ p : Spot, p.character? ≠ some '=' → k.nodeDone p = some (addressed address)

theorem endsOnType_nil : endsOnType [] = false := rfl

theorem endsOnType_concat (address : List Node) (n : Node) :
    endsOnType (address ++ [n]) = n.name.isNone := by
  obtain ⟨type, name⟩ := n
  simp only [endsOnType, Command.endsOnType, Command.pendingType?, List.getLast?_concat]
  cases name <;> rfl

/-- A type that is no step in the address is a node without a name. -/
theorem addresses_type {address : List Node} {type : Text}
    (haddress : endsOnType address = false) (hempty : type.isEmpty = false)
    (hsteps : type ≠ ['.'] ∧ type ≠ ['.', '.']) :
    Addresses { addressed address with buffer := type } (address ++ [⟨type, none⟩]) := by
  intro p hp
  simp [nodeDone, hp, hempty, hsteps.1, hsteps.2, haddress, addressed, addNode, towardsOperation]

/-- A type with a name. -/
theorem addresses_name {address : List Node} {type name : Text} (hempty : name.isEmpty = false) :
    Addresses { addressed (address ++ [⟨type, none⟩]) with buffer := name, expectsName := true }
      (address ++ [⟨type, some name⟩]) := by
  intro p hp
  have hpending : endsOnType (address ++ [⟨type, none⟩]) = true := endsOnType_concat _ _
  simp [nodeDone, hp, hempty, hpending, addressed, nameNode, modify_concat]

/-- The type before a `=`. -/
theorem nodeDone_type {address : List Node} {type : Text} {p : Spot}
    (haddress : endsOnType address = false) (hempty : type.isEmpty = false)
    (hp : p.character? = some '=') :
    nodeDone p { addressed address with buffer := type } =
      some { addressed (address ++ [⟨type, none⟩]) with expectsName := true } := by
  simp [nodeDone, hp, hempty, haddress, addressed, addNode, towardsOperation]

end Sketch

/-- The type and the name can be read. -/
def isNode (maxDepth : Int) (n : Node) : Bool :=
  isNodeText maxDepth n.type && n.name.all (isNodeText maxDepth)

/-- The type stands for a step in the address. -/
def isStep (type : Text) : Bool := type == ['.'] || type == ['.', '.']

/-- The address is read as it is written. -/
def isAddress (maxDepth : Int) : List Node → Bool
  | [] => true
  | [n] => isNode maxDepth n && (n.name.isSome || !isStep n.type)
  | n :: m :: address => isNode maxDepth n && n.name.isSome && isAddress maxDepth (m :: address)

section

variable {maxDepth : Int} {p : Spot} {k : Sketch} {address : List Node} {n : Node} {text : Text}

open Draft

theorem isAddress_cons {nodes : List Node} (h : isAddress maxDepth (n :: nodes) = true) :
    isNode maxDepth n = true ∧ (n.name.isSome = true ∨ isStep n.type = false) ∧
      (nodes ≠ [] → n.name.isSome = true) ∧ isAddress maxDepth nodes = true := by
  cases nodes with
  | nil =>
    simp only [isAddress, Bool.and_eq_true, Bool.or_eq_true, Bool.not_eq_true'] at h
    exact ⟨h.1, h.2, fun hne => absurd rfl hne, rfl⟩
  | cons m nodes =>
    simp only [isAddress, Bool.and_eq_true] at h
    exact ⟨h.1.1, .inl h.1.2, fun _ => h.1.2, h.2⟩

theorem isEmpty_of_isNodeText (h : isNodeText maxDepth text = true) : text.isEmpty = false := by
  cases text with
  | nil =>
    unfold isNodeText at h
    simp [Format.isBare] at h
  | cons d text => rfl

theorem room_of_isNodeText (h : isNodeText maxDepth text = true) :
    addressStates.length < maxDepth := by
  unfold isNodeText at h
  split at h <;> simp only [Bool.and_eq_true, decide_eq_true_eq] at h
  · exact h.2
  · exact Int.lt_trans (Int.lt_succ _) h.1.2

theorem room_of_isAddress (hne : address ≠ []) (h : isAddress maxDepth address = true) :
    commandStates.length < maxDepth := by
  cases address with
  | nil => exact absurd rfl hne
  | cons n nodes =>
    have htype := (Bool.and_eq_true_iff.1 (isAddress_cons h).1).1
    exact Int.lt_trans (by decide) (room_of_isNodeText htype)

/-- A node after its `/`. -/
theorem walk_typeAndName (haddress : Sketch.endsOnType address = false)
    (hn : isNode maxDepth n = true) (hstep : n.name.isSome = true ∨ isStep n.type = false)
    (before after : Text) :
    ∃ k, walk maxDepth before (({} : Format).addressNode n).tail after
        ⟨addressStates, Sketch.addressed address⟩ = some ⟨nodeStates, k⟩ ∧
      k.Addresses (address ++ [n]) := by
  obtain ⟨type, name⟩ := n
  simp only [isNode, Bool.and_eq_true] at hn
  obtain ⟨htype, hname⟩ := hn
  have hroom : commandStates.length < maxDepth :=
    Int.lt_trans (by decide) (room_of_isNodeText htype)
  cases name with
  | none =>
    refine ⟨_, ?_, Sketch.addresses_type haddress (isEmpty_of_isNodeText htype) ?_⟩
    · rw [show (({} : Format).addressNode ⟨type, none⟩).tail = Format.node type from
        List.append_nil _, walk_node htype]
      rfl
    · simpa [isStep] using hstep
  | some name =>
    refine ⟨_, ?_, Sketch.addresses_name (isEmpty_of_isNodeText hname)⟩
    have hwalk : walk maxDepth before (Format.node type) ('=' :: Format.node name ++ after)
        ⟨addressStates, Sketch.addressed address⟩ =
          some ⟨nodeStates, { Sketch.addressed address with buffer := type }⟩ :=
      walk_node htype _ _ _
    have htext : (({} : Format).addressNode ⟨type, some name⟩).tail =
        Format.node type ++ '=' :: Format.node name := rfl
    rw [htext, walk_append_of hwalk, walk_cons_of (handle_node_equals rfl hroom
      (Sketch.nodeDone_type haddress (isEmpty_of_isNodeText htype) rfl)), walk_node hname]
    rfl

/-- The first `/` of a line. -/
theorem handle_first_slash (hd : p.character? = some '/') (hbefore : p.before = [])
    (hroom : addressStates.length < p.maxDepth) :
    handle p ⟨commandStates, { format := some {} }⟩ =
      some ⟨addressStates, Sketch.addressed []⟩ := by
  have hroom' : commandStates.length < p.maxDepth := Int.lt_trans (by decide) hroom
  rw [handle_command_address hd (.inl rfl) hroom']
  refine enter_nodeSeparator hd hroom ?_
  simp [Sketch.react, Sketch.entered, Sketch.towardsOperation, Sketch.addressed, hbefore]

/-- A further `/`. -/
theorem handle_further_slash (hd : p.character? = some '/') (hbefore : p.before ≠ [])
    (hroom : addressStates.length < p.maxDepth) (hk : k.Addresses address) :
    handle p ⟨nodeStates, k⟩ = some ⟨addressStates, Sketch.addressed address⟩ := by
  refine handle_node_slash hd hroom (hk p (by simp [hd])) ?_
  have hlength : p.before.length ≠ 0 := fun h => hbefore (List.length_eq_zero_iff.1 h)
  simp [Sketch.react, Sketch.entered, Sketch.towardsOperation, Sketch.addressed, hlength.symm]

/-- Further nodes. -/
theorem walk_nodes {nodes : List Node} (hk : k.Addresses address)
    (haddress : nodes ≠ [] → Sketch.endsOnType address = false)
    (hnodes : isAddress maxDepth nodes = true) {before : Text} (hbefore : before ≠ [])
    (after : Text) :
    ∃ k', walk maxDepth before (nodes.flatMap ({} : Format).addressNode) after ⟨nodeStates, k⟩ =
        some ⟨nodeStates, k'⟩ ∧ k'.Addresses (address ++ nodes) := by
  induction nodes generalizing address before k with
  | nil => exact ⟨k, rfl, by rwa [List.append_nil]⟩
  | cons n nodes ih =>
    have hend : Sketch.endsOnType address = false := haddress (List.cons_ne_nil _ _)
    obtain ⟨hnode, hstep, hnamed, hmore⟩ := isAddress_cons hnodes
    have hroom : addressStates.length < maxDepth :=
      room_of_isNodeText (Bool.and_eq_true_iff.1 hnode).1
    obtain ⟨k₁, hwalk, hk₁⟩ := walk_typeAndName hend hnode hstep (before ++ ['/'])
      (nodes.flatMap ({} : Format).addressNode ++ after)
    have hend' (h : nodes ≠ []) : Sketch.endsOnType (address ++ [n]) = false := by
      rw [Sketch.endsOnType_concat, Option.isNone_eq_false_iff]
      exact hnamed h
    have hbefore' : before ++ ['/'] ++ (({} : Format).addressNode n).tail ≠ [] := by simp
    obtain ⟨k₂, hrest, hk₂⟩ := ih hk₁ hend' hmore hbefore'
    refine ⟨k₂, ?_, by simpa using hk₂⟩
    have htext : ({} : Format).addressNode n = '/' :: (({} : Format).addressNode n).tail := rfl
    rw [List.flatMap_cons, htext, List.cons_append,
      walk_cons_of (handle_further_slash rfl hbefore hroom hk), walk_append_of hwalk]
    exact hrest

/-- A legible address is read as it is written. -/
theorem walk_address (hne : address ≠ []) (haddress : isAddress maxDepth address = true)
    (after : Text) :
    ∃ k, walk maxDepth [] (address.flatMap ({} : Format).addressNode) after
        ⟨commandStates, { format := some {} }⟩ = some ⟨nodeStates, k⟩ ∧ k.Addresses address := by
  cases address with
  | nil => exact absurd rfl hne
  | cons n nodes =>
    obtain ⟨hnode, hstep, hnamed, hmore⟩ := isAddress_cons haddress
    have hroom : addressStates.length < maxDepth :=
      room_of_isNodeText (Bool.and_eq_true_iff.1 hnode).1
    obtain ⟨k₁, hwalk, hk₁⟩ := walk_typeAndName Sketch.endsOnType_nil hnode hstep ['/']
      (nodes.flatMap ({} : Format).addressNode ++ after)
    have hend (h : nodes ≠ []) : Sketch.endsOnType ([] ++ [n]) = false := by
      rw [Sketch.endsOnType_concat, Option.isNone_eq_false_iff]
      exact hnamed h
    have hbefore : ['/'] ++ (({} : Format).addressNode n).tail ≠ [] := by simp
    obtain ⟨k₂, hrest, hk₂⟩ := walk_nodes hk₁ hend hmore hbefore after
    refine ⟨k₂, ?_, hk₂⟩
    have htext : ({} : Format).addressNode n = '/' :: (({} : Format).addressNode n).tail := rfl
    rw [List.flatMap_cons, htext, List.cons_append,
      walk_cons_of (handle_first_slash rfl rfl hroom), List.nil_append, walk_append_of hwalk]
    exact hrest

end
end CommandLine
