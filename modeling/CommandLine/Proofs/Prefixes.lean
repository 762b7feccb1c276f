/-
# `CommandLine.Proofs.Prefixes` — a base address acts like typed text

A command may start from a base address, and a line that begins with `./` goes on from there.  The
same address can be typed instead, as nodes in quotes; then the line is absolute and each node goes
through the grammar.  The two lines have nothing in common but their end, yet with them the two
runs stand at the same point: the same states are active, and the sketch of what has been gathered
is the same.

From there on the runs go in lockstep.  What one of them meets the other one meets too, some places
further, so whatever is asked about a place must not tell them apart:

    a look back at the last separator    both parts end on `/`           (`lastSolid_append`)
    where the address has started        before the end of both parts   (`Sketch.since`)

How a run fails is a matter of its `Fault.Kind`, for the faults name places.
-/
import CommandLine.Proofs.Roominess
import CommandLine.Proofs.SpacedParts

namespace CommandLine

open Text

/-! ## Kinds of failure -/

/-- What kinds of failure a caller can tell apart. -/
inductive Fault.Kind where
  /-- The line is at fault, in no way that has a kind of its own. -/
  | format
  /-- A value lacks its closing delimiter. -/
  | valueNotFinished
  /-- An expression cannot be resolved. -/
  | unresolvedExpression
  /-- A variable is not defined. -/
  | unresolvedVariable
  /-- The address or the operation is malformed. -/
  | operation
  /-- Too many states would be active. -/
  | nestingTooDeep
  /-- A promise of the machine is broken. -/
  | breach
  /-- The run was given up. -/
  | endless
deriving DecidableEq

/-- The kind of a failure; a defect reaches the caller as a line that could not be read. -/
def Fault.kind : Fault → Fault.Kind
  | .format (.valueNotFinished _ _) => .valueNotFinished
  | .format (.expressionNotClosed _ _ _) | .format (.unresolvedExpression _ _) =>
    .unresolvedExpression
  | .format (.unresolvedVariable _ _) => .unresolvedVariable
  | .format (.operation _) => .operation
  | .format (.nestingTooDeep _ _) => .nestingTooDeep
  | .format _ | .defect _ => .format
  | .breach _ => .breach
  | .endless => .endless

theorem Fault.kind_forLine (line : Text) (fault : Fault) :
    (fault.forLine line).kind = fault.kind := by
  cases fault <;> rfl

/-! ## Sketches some places further -/

namespace Sketch

variable {p q : Spot} {active : List StateName} {k k' : Sketch} {start : Option Nat}

/-- The sketch with the address started elsewhere. -/
def withStart (start : Option Nat) (k : Sketch) : Sketch := { k with addressStart := start }

/-- The sketch with places counted from another one on; a place before that one is not known. -/
def since (n : Nat) (k : Sketch) : Sketch :=
  k.withStart (k.addressStart.bind fun a => if n ≤ a then some (a - n) else none)

theorem nodeDone_withStart (hrest : p.rest = q.rest) :
    (k.withStart start).nodeDone p = (k.nodeDone q).map (withStart start) := by
  have hcharacter : p.character? = q.character? := congrArg List.head? hrest
  unfold nodeDone
  rw [hcharacter, hrest]
  dsimp only [withStart]
  repeat' split
  all_goals rfl

theorem entered_withStart {x : StateName} (haddress : x ≠ .address) (hslash : x ≠ .nodeSeparator) :
    (k.withStart start).entered p active x = (k.entered q active x).map (withStart start) := by
  cases x with
  | address => exact absurd rfl haddress
  | nodeSeparator => exact absurd rfl hslash
  | operationSeparator =>
    show (if endsOnType k.address then _ else _) =
      Option.map _ (if endsOnType k.address then _ else _)
    split <;> rfl
  | argumentValue =>
    unfold entered
    cases isPositional active <;> rfl
  | _ => rfl

theorem leaving_withStart (hrest : p.rest = q.rest) (x : StateName) :
    (k.withStart start).leaving p active x = (k.leaving q active x).map (withStart start) := by
  cases x with
  | node => exact nodeDone_withStart hrest
  | commandName | operationName =>
    show some (if k.buffer.isEmpty then _ else _) =
      some (withStart start (if k.buffer.isEmpty then _ else _))
    split <;> rfl
  | argument =>
    unfold leaving argumentDone
    dsimp only [withStart]
    split <;> rfl
  | property =>
    unfold leaving propertyDone addFlag
    dsimp only [withStart]
    repeat' split
    all_goals rfl
  | header =>
    cases hname : k.name with
    | none =>
      by_cases hbuffer : (trim k.buffer).isEmpty <;>
        simp [leaving, headerDone, withStart, fresh, hname, hbuffer]
    | some name =>
      by_cases hbuffer : (trim k.buffer).isEmpty <;> by_cases hempty : name.isEmpty <;>
        simp [leaving, headerDone, withStart, fresh, hname, hbuffer, hempty]
  | argumentValue =>
    show (if isPositional active then _ else _) =
      Option.map _ (if isPositional active then _ else _)
    split <;> rfl
  | propertyList =>
    show (if p.rest.isEmpty then _ else _) = Option.map _ (if q.rest.isEmpty then _ else _)
    rw [hrest]
    split <;> rfl
  | _ => rfl

/-- Where the address started concerns its first `/` only. -/
theorem react_withStart (hrest : p.rest = q.rest) {signal : Signal StateName}
    (haddress : signal ≠ .entered .address) (hslash : signal ≠ .entered .nodeSeparator) :
    react p signal active (k.withStart start) =
      (react q signal active k).map (withStart start) := by
  cases signal with
  | entered x =>
    exact entered_withStart (fun h => haddress (congrArg _ h)) fun h => hslash (congrArg _ h)
  | leaving x => exact leaving_withStart hrest x
  | content =>
    unfold react
    rw [show p.character? = q.character? from congrArg List.head? hrest]
    rfl
  | _ => rfl

/-- Nothing else moves it. -/
theorem addressStart_of_react {signal : Signal StateName} (haddress : signal ≠ .entered .address)
    (hslash : signal ≠ .entered .nodeSeparator) (h : react p signal active k = some k') :
    k'.addressStart = k.addressStart := by
  have hsame : react p signal active (k.withStart k.addressStart) =
      (react p signal active k).map (withStart k.addressStart) :=
    react_withStart rfl haddress hslash
  rw [show k.withStart k.addressStart = k from rfl, h, Option.map_some] at hsame
  have hstart : k'.addressStart = (k'.withStart k.addressStart).addressStart :=
    congrArg addressStart (Option.some.inj hsame)
  exact hstart

theorem addressStart_since {n m : Nat} :
    (k.since n).addressStart = some m ↔ k.addressStart = some (n + m) := by
  show (k.addressStart.bind fun a => if n ≤ a then some (a - n) else none) = some m ↔ _
  cases k.addressStart with
  | none => simp
  | some a =>
    rw [Option.bind_some, Option.some.injEq]
    split
    · rw [Option.some.injEq]
      omega
    · simp only [reduceCtorEq, false_iff]
      omega

/-- What a signal does is the same some places further. -/
theorem react_since {maxDepth : Int} {front done rest : Text} (signal : Signal StateName) :
    (react ⟨maxDepth, front ++ done, rest⟩ signal active k).map (since front.length) =
      react ⟨maxDepth, done, rest⟩ signal active (k.since front.length) := by
  by_cases haddress : signal = .entered .address
  · subst haddress
    simp [react, entered, since, withStart]
  by_cases hslash : signal = .entered .nodeSeparator
  · subst hslash
    by_cases hstart : k.addressStart = some (front.length + done.length)
    · simp [react, entered, towardsOperation, since, withStart, hstart]
    · have hsince : (k.since front.length).addressStart ≠ some done.length :=
        fun h => hstart (addressStart_since.1 h)
      rw [← List.length_append] at hstart
      have hleft : react ⟨maxDepth, front ++ done, rest⟩ (.entered .nodeSeparator) active k =
          some { k.towardsOperation with expectsName := false } := if_neg hstart
      have hright : react ⟨maxDepth, done, rest⟩ (.entered .nodeSeparator) active
          (k.since front.length) =
            some { (k.since front.length).towardsOperation with expectsName := false } :=
        if_neg hsince
      rw [hleft, hright]
      rfl
  have hfurther : react ⟨maxDepth, done, rest⟩ signal active
      (k.withStart (k.since front.length).addressStart) =
        (react ⟨maxDepth, front ++ done, rest⟩ signal active k).map
          (withStart (k.since front.length).addressStart) :=
    react_withStart (p := ⟨maxDepth, done, rest⟩) (q := ⟨maxDepth, front ++ done, rest⟩) rfl
      haddress hslash
  rw [show k.since front.length = k.withStart (k.since front.length).addressStart from rfl,
    hfurther]
  cases hreact : react ⟨maxDepth, front ++ done, rest⟩ signal active k with
  | none => rfl
  | some k' =>
    rw [Option.map_some, Option.map_some, since, addressStart_of_react haddress hslash hreact]
    rfl

end Sketch

/-! ## Runs on the same text -/

/-- The last character that is no gap does not lie before a `/`. -/
theorem lastSolid_append (front done : Text) :
    ((front ++ '/' :: done).reverse.dropWhile isGap).head? =
      (('/' :: done).reverse.dropWhile isGap).head? := by
  have hsolid : (('/' :: done).reverse.dropWhile isGap).isEmpty = false := by
    rw [List.isEmpty_eq_false_iff, ne_eq, List.dropWhile_eq_nil_iff]
    intro h
    have := h '/' (by simp)
    cases this
  rw [List.reverse_append, List.dropWhile_append, hsolid, if_neg Bool.false_ne_true,
    List.head?_append_of_ne_nil _ (List.isEmpty_eq_false_iff.1 hsolid)]

namespace Draft

/-- The draft with places counted from another one on. -/
def since (n : Nat) (sc : Draft) : Draft := ⟨sc.active, sc.gathered.since n⟩

theorem active_eq_of_since {n m : Nat} {sc sc' : Draft} (h : sc.since n = sc'.since m) :
    sc.active = sc'.active :=
  (Scene.mk.inj h).1

variable {maxDepth : Int} {front done rest : Text}

theorem tell_since (signal : Signal StateName) (sc : Draft) :
    (Scene.tell Sketch.react ⟨maxDepth, front ++ done, rest⟩ signal sc).map (since front.length) =
      Scene.tell Sketch.react ⟨maxDepth, done, rest⟩ signal (sc.since front.length) := by
  show ((Sketch.react ⟨maxDepth, front ++ done, rest⟩ signal sc.active sc.gathered).map
      (Scene.mk sc.active)).map (since front.length) =
    (Sketch.react ⟨maxDepth, done, rest⟩ signal sc.active (sc.gathered.since front.length)).map
      (Scene.mk sc.active)
  rw [← Sketch.react_since, Option.map_map, Option.map_map]
  rfl

theorem opening_since (x : StateName) (sc : Draft) :
    (Scene.opening ⟨maxDepth, front ++ done, rest⟩ x sc).map (since front.length) =
      Scene.opening ⟨maxDepth, done, rest⟩ x (sc.since front.length) := by
  show (if maxDepth ≤ sc.active.length then none else _).map _ =
    if maxDepth ≤ sc.active.length then none else _
  split <;> rfl

theorem closing_since (n : Nat) (sc : Draft) :
    (Scene.closing sc).map (since n) = Scene.closing (sc.since n) := by
  obtain ⟨_ | _, _⟩ := sc <;> rfl

end Draft

/-- The runs stand at the same place of a text after one or the other part, with the same states and
the same sketch. -/
def Bond.after (maxDepth : Int) (front front' : Text) :
    Bond StateName (Reader × Command) (Reader × Command) where
  joins s t := ∃ (done rest : Text) (sc sc' : Draft),
    s.Shows grammar Sketch.of ⟨maxDepth, front ++ done, rest⟩ sc ∧
    t.Shows grammar Sketch.of ⟨maxDepth, front' ++ done, rest⟩ sc' ∧
    sc.since front.length = sc'.since front'.length
  fails e _ f _ := e.kind = f.kind

namespace Machine

variable {maxDepth : Int} {front front' : Text}

section

variable {G : Graph StateName} {s t u : Session StateName (Reader × Command)} {fault : Fault}

theorem kind_of_opening {x : StateName} (h : opening G x s = .error fault u) :
    fault.kind = .nestingTooDeep := by
  rw [opening_apply] at h
  split at h
  · cases h
  · next e hpush =>
    cases h
    unfold Stack.push at hpush
    split at hpush
    · cases hpush
      rfl
    · cases hpush

theorem kind_of_closing (h : closing s = .error fault u) : fault.kind = .format := by
  rw [closing_apply] at h
  split at h
  · cases h
  · cases h
    rfl

theorem kind_of_tell {signal : Signal StateName}
    (h : tell (Reader.listener Command.handler) signal s = .error fault u) :
    fault.kind = .operation := by
  rw [tell_apply] at h
  rcases Reader.verdict_listener Command.isFair_handler signal s.context s.gathered with
    hv | ⟨f, hv⟩
  · rw [hv] at h
    cases h
  · rw [hv] at h
    cases h
    rfl

end

/-- Two programs go together if they lead to the same place and scene. -/
theorem Paired.of_mirrors {m m' : Machine StateName (Reader × Command) Unit}
    {s t : Session StateName (Reader × Command)} {next next' : Option Draft} {done rest : Text}
    (hs : Mirrors grammar Sketch.of ⟨maxDepth, front ++ done, rest⟩ m s next)
    (ht : Mirrors grammar Sketch.of ⟨maxDepth, front' ++ done, rest⟩ m' t next')
    (hnext : next.map (Draft.since front.length) = next'.map (Draft.since front'.length))
    (hkinds : ∀ {e s' f t'}, m s = .error e s' → m' t = .error f t' → e.kind = f.kind) :
    Paired (.after maxDepth front front') m s m' t := by
  unfold Mirrors at hs ht
  split at hs
  · next hm =>
    split at ht
    · next hm' => exact .of_ok hm hm' ⟨done, rest, _, _, hs, ht, Option.some.inj hnext⟩
    · cases hnext
    · exact ht.elim
  · next hm =>
    split at ht
    · cases hnext
    · next hm' => exact .of_error hm hm' (hkinds hm hm')
    · exact ht.elim
  · exact hs.elim

/-- A class of tame actions has what comes up. -/
theorem Tame.spans {σ : Type} {G : Graph σ} {K : Action σ → Prop} (tame : Tame G K) : Spans G K :=
  ⟨tame.closed, tame.dispatched, tame.onEnter, tame.onReturn, tame.onLeave, tame.onEnd⟩

/-- What is done at corresponding places is paired. -/
theorem holds_after (maxDepth : Int) (front front' : Text) :
    (Bond.after maxDepth (front ++ ['/']) (front' ++ ['/'])).Holds grammar
      (Reader.listener Command.handler) (Reader.listener Command.handler)
      fun a => a.isTame = true where
  active := by
    rintro s t ⟨done, rest, sc, sc', hs, ht, halike⟩
    rw [hs.context.active, ht.context.active, Draft.active_eq_of_since halike]
  character? := by
    rintro s t ⟨done, rest, sc, sc', hs, ht, -⟩
    exact hs.context.character?.trans ht.context.character?.symm
  escapes := by
    rintro s t ⟨done, rest, sc, sc', hs, ht, halike⟩
    rw [hs.context.escapesEnabled, ht.context.escapesEnabled, Draft.active_eq_of_since halike]
  looks := by
    rintro s t following preceding ⟨done, rest, sc, sc', hs, ht, -⟩
    rw [hs.context.isBesideSeparator, ht.context.isBesideSeparator, Spot.isBesideSeparator,
      Spot.isBesideSeparator, List.append_assoc, List.append_assoc, List.singleton_append,
      lastSolid_append, lastSolid_append]
  limits := by
    rintro s t ⟨done, rest, sc, sc', hs, ht, halike⟩
    refine .inl ?_
    rw [unwindLimit, unwindLimit, hs.context.limit, ht.context.limit, hs.context.depth,
      ht.context.depth, Draft.active_eq_of_since halike]
  throws _ _ _ := rfl
  places _ := rfl
  tells := by
    rintro s t signal ⟨done, rest, sc, sc', hs, ht, halike⟩
    refine .of_mirrors (.tell Sketch.sketches signal hs) (.tell Sketch.sketches signal ht) ?_ ?_
    · rw [Draft.tell_since, Draft.tell_since, halike]
    · intro e s' f t' he hf
      exact (kind_of_tell he).trans (kind_of_tell hf).symm
  opens := by
    rintro s t x ⟨done, rest, sc, sc', hs, ht, halike⟩
    refine .of_mirrors (.opening x hs) (.opening x ht) ?_ ?_
    · rw [Draft.opening_since, Draft.opening_since, halike]
    · intro e s' f t' he hf
      exact (kind_of_opening he).trans (kind_of_opening hf).symm
  closes := by
    rintro s t ⟨done, rest, sc, sc', hs, ht, halike⟩
    refine .of_mirrors (.closing hs) (.closing ht) ?_ ?_
    · rw [Draft.closing_since, Draft.closing_since, halike]
    · intro e s' f t' he hf
      exact (kind_of_closing he).trans (kind_of_closing hf).symm
  complains := by
    rintro s t delimiter ⟨done, rest, sc, sc', hs, ht, halike⟩
    rw [notFinished, frame_bind_eq]
    refine .read ?_
    have hactive := Draft.active_eq_of_since halike
    cases hstates : sc.active with
    | nil =>
      rw [Context.frame?_of_active_nil (hs.context.active.trans hstates),
        Context.frame?_of_active_nil (ht.context.active.trans (hactive ▸ hstates))]
      exact .of_error rfl rfl rfl
    | cons x outer =>
      obtain ⟨f, hf, -⟩ := Mirrors.frame_of_shows hs hstates
      obtain ⟨g, hg, -⟩ := Mirrors.frame_of_shows ht (hactive ▸ hstates)
      rw [hf, hg]
      exact .of_error ((complain_apply _ s).trans (if_pos hs.context.strict))
        ((complain_apply _ t).trans (if_pos ht.context.strict)) rfl
  configures _ _ hscope := by cases hscope
  prepares := by
    rintro s t hjoins
    obtain ⟨done, rest, sc, sc', hs, ht, -⟩ := id hjoins
    exact .of_ok (prepare_of_plain hs.context.plain) (prepare_of_plain ht.context.plain) hjoins
  advances := by
    rintro s t ⟨done, rest, sc, sc', hs, ht, halike⟩
    have hadvance := advance_apply s
    have hadvance' := advance_apply t
    rw [hs.context.atEnd] at hadvance
    rw [ht.context.atEnd] at hadvance'
    cases rest with
    | nil => exact .of_error hadvance hadvance' rfl
    | cons d rest =>
      have hs' := hs.context.advance
      have ht' := ht.context.advance
      rw [List.append_assoc] at hs' ht'
      exact .of_ok hadvance hadvance'
        ⟨done ++ [d], rest, sc, sc', ⟨hs', hs.gathered⟩, ⟨ht', ht.gathered⟩, halike⟩

end Machine

/-! ## The two beginnings -/

/-- Nodes with type and name, as they are typed in quotes. -/
def typedNodes (nodes : List (Text × Text)) : Text := nodes.flatMap fun n => (nodeTokens n).flatten

/-- Each `/` but the last one starts a node, and each but the first one ends a node. -/
theorem typedNodes_slash (nodes : List (Text × Text)) :
    typedNodes nodes ++ ['/'] =
      '/' :: nodes.flatMap fun n => (nodeTokens n).tail.flatten ++ ['/'] := by
  induction nodes with
  | nil => rfl
  | cons n nodes ih =>
    have hhead : (nodeTokens n).flatten = '/' :: (nodeTokens n).tail.flatten := rfl
    rw [typedNodes, List.flatMap_cons, List.append_assoc, ← typedNodes, ih, hhead, List.cons_append,
      List.flatMap_cons, List.append_assoc, List.singleton_append]

namespace Draft

variable {maxDepth : Int} {nodes : List (Text × Text)} {address : List Node}

theorem enter_command {text : Text} {base : List Node} (hroom : 0 < maxDepth) :
    Scene.enter grammar Sketch.react ⟨maxDepth, [], text⟩ .command
        ⟨[], Sketch.ofCommand (.relativeTo base)⟩ =
      some ⟨commandStates, { format := some {}, address := base }⟩ :=
  act_enter (p := ⟨maxDepth, [], text⟩) (n := 1000) hroom rfl

/-- Nodes in quotes, each with the `/` after it. -/
theorem walk_nodes_slash (hroom : quotesStates.length < maxDepth)
    (haddress : Sketch.endsOnType address = false)
    (hnodes : nodes.all (fun n => !n.1.isEmpty && !n.2.isEmpty) = true) (before after : Text) :
    walk maxDepth (before ++ ['/']) (nodes.flatMap fun n => (nodeTokens n).tail.flatten ++ ['/'])
        after ⟨addressStates, Sketch.addressed address⟩ =
      some ⟨addressStates, Sketch.addressed (address ++ namedNodes nodes)⟩ := by
  induction nodes generalizing address before with
  | nil =>
    rw [namedNodes, List.map_nil, List.append_nil]
    rfl
  | cons n nodes ih =>
    simp only [List.all_cons, Bool.and_eq_true, Bool.not_eq_true'] at hnodes
    obtain ⟨⟨htype, hname⟩, hnodes⟩ := hnodes
    have hnode (after : Text) : walk maxDepth (before ++ ['/']) (nodeTokens n).tail.flatten after
        ⟨addressStates, Sketch.addressed address⟩ =
          some ⟨nodeStates, Sketch.naming 0 address n⟩ :=
      walk_typeAndName_spaced hroom haddress htype (.flatten _) before after
    have hbefore : 0 < (before ++ ['/'] ++ (nodeTokens n).tail.flatten).length := by
      rw [List.length_append, List.length_append]
      exact Nat.lt_of_lt_of_le (Nat.succ_pos _) (Nat.le_add_right _ _)
    have hrest := ih (Sketch.endsOnType_concat address ⟨n.1, some n.2⟩) hnodes
      (before ++ ['/'] ++ (nodeTokens n).tail.flatten)
    rw [List.append_assoc address] at hrest
    rw [List.flatMap_cons, List.append_assoc, walk_append_of (hnode _), List.singleton_append,
      walk_cons_of (handle_naming_slash hroom hname hbefore _)]
    exact hrest

/-- A typed address and the `/` after it. -/
theorem walk_typedNodes (hroom : quotesStates.length < maxDepth)
    (hnodes : nodes.all (fun n => !n.1.isEmpty && !n.2.isEmpty) = true) (after : Text) :
    walk maxDepth [] (typedNodes nodes ++ ['/']) after ⟨commandStates, { format := some {} }⟩ =
      some ⟨addressStates, Sketch.addressed (namedNodes nodes)⟩ := by
  rw [typedNodes_slash, walk_cons_of (handle_first_slash rfl rfl (Int.lt_trans (by decide) hroom))]
  exact walk_nodes_slash hroom Sketch.endsOnType_nil hnodes [] after

/-- The `./` of a line that goes on from a base address. -/
theorem walk_dotSlash (hroom : addressStates.length < maxDepth) (base : List Node) (after : Text) :
    walk maxDepth [] ['.', '/'] after ⟨commandStates, { format := some {}, address := base }⟩ =
      some ⟨addressStates, Sketch.addressed base⟩ := by
  have hdot : handle ⟨maxDepth, [], '.' :: '/' :: after⟩
      ⟨commandStates, { format := some {}, address := base }⟩ =
        some ⟨nodeStates,
          { format := some {}, address := base, addressStart := some 0, buffer := ['.'] }⟩ := by
    rw [handle_command_address rfl (.inr (.inr rfl)) (Int.lt_trans (by decide) hroom)]
    refine (act_enter hroom rfl).trans ?_
    exact (act_dispatch rfl).trans (act_content rfl)
  have hslash : handle ⟨maxDepth, ['.'], '/' :: after⟩ ⟨nodeStates,
      { format := some {}, address := base, addressStart := some 0, buffer := ['.'] }⟩ =
        some ⟨addressStates, Sketch.addressed base⟩ :=
    handle_node_slash rfl hroom rfl rfl
  exact (walk_cons_of hdot).trans (walk_cons_of hslash)

end Draft

/-! ## Commands -/

namespace Command

/-- The commands say the same. -/
structure SaysAs (c d : Command) : Prop where
  address : c.address = d.address
  operation : c.operation = d.operation
  arguments : c.arguments.map Argument.said = d.arguments.map Argument.said
  headers : c.headers = d.headers
  outputTarget : c.outputTarget = d.outputTarget

/-- Both lines are read, as commands that say the same, or both readings fail in the same way. -/
inductive ComesOutAs : Except Fault Command → Except Fault Command → Prop
  | read {c d : Command} (h : c.SaysAs d) : ComesOutAs (.ok c) (.ok d)
  | failed {e f : Fault} (h : e.kind = f.kind) : ComesOutAs (.error e) (.error f)

theorem comesOutAs_ofEnding {maxDepth : Int} {front front' : Text}
    {m m' : Machine StateName (Reader × Command) Unit}
    {s t : Session StateName (Reader × Command)}
    (h : Machine.Paired (.after maxDepth front front') m s m' t) (text text' : Text) :
    ComesOutAs (ofEnding text (m s)) (ofEnding text' (m' t)) := by
  unfold Machine.Paired at h
  split at h
  · next hm hm' =>
    obtain ⟨-, done, rest, sc, sc', hs, ht, halike⟩ := h
    rw [hm, hm']
    have hsketch := (Scene.mk.inj halike).2
    rw [← hs.gathered, ← ht.gathered] at hsketch
    exact .read ⟨congrArg Sketch.address hsketch, congrArg Sketch.operation hsketch,
      congrArg Sketch.arguments hsketch, congrArg Sketch.headers hsketch,
      congrArg Sketch.outputTarget hsketch⟩
  · next e _ f _ hm hm' =>
    rw [hm, hm']
    refine .failed ?_
    rw [Fault.kind_forLine, Fault.kind_forLine]
    exact h.resolve_left id
  · exact h.elim
  · exact h.elim

theorem isBlankText_of_slash (front rest : Text) :
    isBlankText (front ++ ['/'] ++ rest) = false := by
  rw [isBlankText, List.all_append, List.all_append, show ['/'].all isBlank = false from rfl,
    Bool.and_false, Bool.false_and]

variable {settings : Settings} {limit : Int} {front rest : Text} {base address : List Node}

/-- A line is what its end makes of it, once its beginning has led into an address. -/
theorem read_eq_of_front (hplain : settings.substitutes = false)
    (hlimit : settings.maxDepth ≤ limit) (hroom : 0 < limit)
    (hwalk : Draft.walk limit [] (front ++ ['/']) rest
      ⟨commandStates, { format := some {}, address := base }⟩ =
        some ⟨addressStates, Sketch.addressed address⟩)
    {positions : Nat} (hpositions : positionLimit settings (front ++ ['/'] ++ rest) ≤ positions)
    (hdeep : WithinDepth
      (Command.read settings true .command base (some (front ++ ['/'] ++ rest)))) :
    ∃ s : Session StateName (Reader × Command),
      Command.read settings true .command base (some (front ++ ['/'] ++ rest)) =
        ofEnding (front ++ ['/'] ++ rest) ((do
          Machine.walk grammar (Reader.listener handler) positions
          Machine.finish grammar (Reader.listener handler)) s) ∧
      s.Shows grammar Sketch.of ⟨limit, front ++ ['/'], rest⟩
        ⟨addressStates, Sketch.addressed address⟩ := by
  have hplain' : ({ settings with maxDepth := limit } : Settings).substitutes = false := hplain
  obtain ⟨s, hs, hshows⟩ := Machine.Mirrors.readFrom_front tame_grammar Sketch.sketches hplain'
    (Draft.enter_command hroom) hwalk positions
  refine ⟨s, ?_, hshows⟩
  have hpositions' := Nat.le_trans hpositions (Nat.le_add_left _ (front ++ ['/']).length)
  rw [read_eq_ofEnding hplain (isBlankText_of_slash front rest) hlimit hpositions' hdeep]
  exact congrArg (ofEnding _) hs

end Command

/-- The start of an address at the start of the line lies before any other place. -/
theorem Sketch.since_addressed {n : Nat} (h : 0 < n) (address : List Node) :
    (addressed address).since n = (addressed address).withStart none := by
  show (addressed address).withStart (if n ≤ 0 then some (0 - n) else none) = _
  rw [if_neg (Nat.not_le.2 h)]

/-- A base address acts like typed text.  Whatever follows, a line that goes on with `./` from the
base address is read as the line on which the same nodes have been typed in quotes, unless one of
the two is nested too deep: either both lines give the same address, operation, arguments, headers
and output target, or both readings fail in the same way. -/
theorem base_acts_like_typed_nodes (settings : Settings) (hplain : settings.substitutes = false)
    (nodes : List (Text × Text))
    (hnodes : nodes.all (fun n => !n.1.isEmpty && !n.2.isEmpty) = true) (rest : Text)
    (hrelative : WithinDepth
      (Command.read settings true .command (namedNodes nodes) (some ('.' :: '/' :: rest))))
    (habsolute : WithinDepth
      (Command.read settings true .command [] (some (typedNodes nodes ++ '/' :: rest)))) :
    Command.ComesOutAs
      (Command.read settings true .command (namedNodes nodes) (some ('.' :: '/' :: rest)))
      (Command.read settings true .command [] (some (typedNodes nodes ++ '/' :: rest))) := by
  -- room for the states that a typed node goes through, and characters enough for both lines
  obtain ⟨limit, hlimit, hroom⟩ : ∃ limit, settings.maxDepth ≤ limit ∧
      quotesStates.length < limit := ⟨max settings.maxDepth 5, Int.le_max_left _ _,
    Int.lt_of_lt_of_le (by decide) (Int.le_max_right _ _)⟩
  obtain ⟨positions, hpositions, hpositions'⟩ : ∃ positions,
      positionLimit settings (['.'] ++ ['/'] ++ rest) ≤ positions ∧
      positionLimit settings (typedNodes nodes ++ ['/'] ++ rest) ≤ positions :=
    ⟨_, Nat.le_max_left _ _, Nat.le_max_right _ _⟩
  have hroom' : addressStates.length < limit := Int.lt_trans (by decide) hroom
  rw [List.append_cons] at habsolute ⊢
  obtain ⟨s, hs, hshows⟩ := Command.read_eq_of_front hplain hlimit (Int.lt_trans (by decide) hroom)
    (Draft.walk_dotSlash hroom' (namedNodes nodes) rest) hpositions hrelative
  obtain ⟨t, ht, hshows'⟩ := Command.read_eq_of_front hplain hlimit (Int.lt_trans (by decide) hroom)
    (Draft.walk_typedNodes hroom hnodes rest) hpositions' habsolute
  have hjoins : (Bond.after limit (['.'] ++ ['/']) (typedNodes nodes ++ ['/'])).joins s t := by
    refine ⟨[], rest, _, _, by rwa [List.append_nil], by rwa [List.append_nil], ?_⟩
    rw [Draft.since, Draft.since, Sketch.since_addressed (by simp),
      Sketch.since_addressed (by simp)]
  have hpaired := (Machine.holds_after limit _ _).walk_finish tame_grammar.spans
    (.inl (Eq.refl positions)) hjoins
  have houtcome := Command.comesOutAs_ofEnding hpaired (['.'] ++ ['/'] ++ rest)
    (typedNodes nodes ++ ['/'] ++ rest)
  rw [← hs, ← ht] at houtcome
  exact houtcome

/-- The name of the node holds what has to be escaped in quotes, and the type a gap. -/
theorem base_acts_like_typed_nodes_of_escaped :
    Settings.substitutes {} = false ∧
    WithinDepth (Command.read {} true .command (namedNodes [(['a', ' '], ['"', '\\', '/'])])
      (some ('.' :: '/' :: ":op(c=d) > e".toList))) ∧
    WithinDepth (Command.read {} true .command []
      (some (typedNodes [(['a', ' '], ['"', '\\', '/'])] ++ '/' :: ":op(c=d) > e".toList))) ∧
    Command.ComesOutAs
      (Command.read {} true .command (namedNodes [(['a', ' '], ['"', '\\', '/'])])
        (some ('.' :: '/' :: ":op(c=d) > e".toList)))
      (Command.read {} true .command []
        (some (typedNodes [(['a', ' '], ['"', '\\', '/'])] ++ '/' :: ":op(c=d) > e".toList))) := by
  have hrelative : WithinDepth (Command.read {} true .command
      (namedNodes [(['a', ' '], ['"', '\\', '/'])])
      (some ('.' :: '/' :: ":op(c=d) > e".toList))) := by decide +kernel
  have habsolute : WithinDepth (Command.read {} true .command []
      (some (typedNodes [(['a', ' '], ['"', '\\', '/'])] ++ '/' :: ":op(c=d) > e".toList))) := by
    decide +kernel
  exact ⟨rfl, hrelative, habsolute, base_acts_like_typed_nodes _ rfl _ rfl _ hrelative habsolute⟩

end CommandLine
