/-
# `CommandLine.Proofs.ValueMark` — the value mark follows the stack

The value mark and its lock are two numbers beside the stack.  Here they are read off the frames:
the *anchor* of a stack is its outermost frame whose state both marks and locks values, and at any
moment of a run

    the mark is locked          iff the stack has an anchor       (`Anchored.locked_iff`)
    the depth of the lock       is that of the anchor             (`Anchored.lock`)
    the marked offset           is where the anchor was entered   (`Anchored.mark`)
    the marked offset           is not past the cursor            (`Anchored.behind`)
    the frames                  are no more than the limit        (`Anchored.room`)

whatever the graph and the listener do.  What the callers of a context do is a list of *calls*, of
which some may end early; the next one then goes on from the session that is left behind
(`afterCalls`).  As every call only moves a session (`Machine.Follows`), one case for each kind of
move is all there is to prove.

As long as the anchor is not popped, it stays the anchor, so the mark stays where it is
(`Kept.anchor_eq`).
-/
import CommandLine.Proofs.Moves

namespace CommandLine

/-- Entering the state locks the value mark, if it is not locked already. -/
def State.anchors {σ : Type} (s : State σ) : Bool := s.marksValue && s.locksValue

/-- Where the outermost of some frames, the innermost given first, was entered whose state locks the
value mark, and how deep it stands. -/
def Graph.anchor? {σ : Type} (G : Graph σ) : List (Frame σ) → Option (Int × Nat)
  | [] => none
  | frame :: outer =>
    (G.anchor? outer).or
      (if (G frame.state).anchors then some (frame.location, outer.length + 1) else none)

section

variable {σ τ : Type} {G : Graph σ} {L : Listener σ τ}

/-! ## The anchor of a stack -/

namespace Graph

theorem anchor?_depth_le {frames : List (Frame σ)} {location : Int} {depth : Nat}
    (h : G.anchor? frames = some (location, depth)) : depth ≤ frames.length := by
  induction frames with
  | nil => cases h
  | cons frame outer ih =>
    rw [anchor?] at h
    cases houter : G.anchor? outer with
    | some found =>
      rw [houter, Option.some_or] at h
      exact Nat.le_succ_of_le (ih (houter.trans h))
    | none =>
      rw [houter, Option.none_or] at h
      split at h
      · cases h
        exact Nat.le_refl _
      · cases h

theorem anchor?_eq_none_iff {frames : List (Frame σ)} :
    G.anchor? frames = none ↔ ∀ frame ∈ frames, (G frame.state).anchors = false := by
  induction frames with
  | nil => simp [anchor?]
  | cons frame outer ih =>
    rw [anchor?, Option.or_eq_none_iff, ih, List.forall_mem_cons, and_comm]
    refine and_congr_left' ?_
    cases (G frame.state).anchors <;> simp

theorem anchor?_isSome_iff {frames : List (Frame σ)} :
    (G.anchor? frames).isSome = true ↔ ∃ frame ∈ frames, (G frame.state).anchors = true := by
  induction frames with
  | nil => simp [anchor?]
  | cons frame outer ih =>
    rw [anchor?, Option.isSome_or, Bool.or_eq_true, ih]
    cases hframe : (G frame.state).anchors <;> simp [hframe]

/-- Frames further inside change nothing about the anchor. -/
theorem anchor?_append_of_some (inner : List (Frame σ)) {outer : List (Frame σ)}
    {found : Int × Nat}
    (h : G.anchor? outer = some found) : G.anchor? (inner ++ outer) = some found := by
  induction inner with
  | nil => exact h
  | cons frame inner ih => rw [List.cons_append, anchor?, ih, Option.some_or]

/-- The anchor is the outermost frame of its kind. -/
theorem anchor?_of_outermost {inner outer : List (Frame σ)} {frame : Frame σ}
    (hanchors : (G frame.state).anchors = true)
    (houter : ∀ other ∈ outer, (G other.state).anchors = false) :
    G.anchor? (inner ++ frame :: outer) = some (frame.location, outer.length + 1) := by
  refine anchor?_append_of_some _ ?_
  rw [anchor?, anchor?_eq_none_iff.2 houter, Option.none_or, if_pos hanchors]

/-- A frame that is popped takes the anchor with it only if it is the anchor itself. -/
theorem anchor?_of_popped (frame : Frame σ) (outer : List (Frame σ)) :
    G.anchor? outer = (G.anchor? (frame :: outer)).filter fun found => found.2 ≤ outer.length := by
  rw [anchor?]
  cases houter : G.anchor? outer with
  | some found =>
    have hdepth : found.2 ≤ outer.length := anchor?_depth_le houter
    rw [Option.some_or, Option.filter_some, if_pos (decide_eq_true hdepth)]
  | none => cases (G frame.state).anchors <;> simp [Option.filter_some]

/-- The switches of a scope have no part in the anchor. -/
theorem anchor?_configure (c : Context σ) (escapes expressions : Option Bool) :
    G.anchor? (c.configure escapes expressions).stack.frames = G.anchor? c.stack.frames := by
  show G.anchor? (c.stack.frames.modifyHead _) = _
  cases c.stack.frames <;> rfl

end Graph

/-! ## The mark and its lock at one moment -/

namespace Context

/-- The lock that is there first stays. -/
theorem lockDepth_markValue (c : Context σ) (s : State σ) :
    (c.markValue s).lockDepth =
      c.lockDepth.or (if s.anchors then some c.stack.depth else none) := by
  rw [markValue, State.anchors]
  cases hlock : c.lockDepth <;> cases s.marksValue <;> simp [hlock]

/-- A state that locks the mark has marked its own start. -/
theorem valueIndex_markValue_of_anchors {c : Context σ} {s : State σ} (hfree : c.lockDepth = none)
    (h : s.anchors = true) : (c.markValue s).valueIndex = c.location := by
  rw [State.anchors, Bool.and_eq_true] at h
  simp [markValue, hfree, h.1]

/-- A locked mark stays where it is. -/
theorem valueIndex_markValue_of_isSome {c : Context σ} (h : c.lockDepth.isSome = true)
    (s : State σ) : (c.markValue s).valueIndex = c.valueIndex := by
  obtain ⟨depth, hlock⟩ := Option.isSome_iff_exists.1 h
  simp [markValue, hlock]

theorem valueIndex_markValue_le {c : Context σ} (h : c.valueIndex ≤ c.location) (s : State σ) :
    (c.markValue s).valueIndex ≤ c.location := by
  rw [markValue]
  split
  · exact Nat.le_refl _
  · exact h

theorem lockDepth_unlockValue (c : Context σ) :
    c.unlockValue.lockDepth = c.lockDepth.filter fun depth => depth ≤ c.stack.depth := by
  rw [unlockValue]
  cases hlock : c.lockDepth with
  | none => simp [hlock]
  | some depth =>
    by_cases hdepth : c.stack.depth < depth
    · simp [hdepth, Option.filter_some]
    · simp [hdepth, hlock, Option.filter_some, Nat.not_lt.1 hdepth]

end Context

/-- The value mark is where the stack says, and the stack is within its limit. -/
structure Anchored (G : Graph σ) (c : Context σ) : Prop where
  lock : c.lockDepth = (G.anchor? c.stack.frames).map Prod.snd
  mark : ∀ found ∈ G.anchor? c.stack.frames, (c.valueIndex : Int) = found.1
  behind : c.valueIndex ≤ c.location
  room : c.stack.depth ≤ c.stack.maxDepth.toNat

namespace Anchored

variable {c : Context σ}

theorem start (settings : Settings) (strict : Bool) (text : Text) :
    Anchored G (Context.start settings strict text) where
  lock := rfl
  mark found hfound := by cases hfound
  behind := Nat.le_refl 0
  room := Nat.zero_le _

theorem locked_iff (h : Anchored G c) :
    c.valueLocked = true ↔ ∃ frame ∈ c.stack.frames, (G frame.state).anchors = true := by
  rw [Context.valueLocked, h.lock, Option.isSome_map, Graph.anchor?_isSome_iff]

/-- A frame is pushed and the mark follows, unless there is an anchor already. -/
theorem opened {name : σ} {stack : Stack σ} (h : Anchored G c)
    (room : c.stack.push (c.frameFor name (G name)) = .ok stack) :
    Anchored G ({ c with stack := stack }.markValue (G name)) := by
  have hdepth : (stack.depth : Int) ≤ stack.maxDepth := Stack.depth_le_of_push room
  have hanchor : G.anchor? stack.frames = (G.anchor? c.stack.frames).or
      (if (G name).anchors then some ((c.location : Int), stack.depth) else none) := by
    rw [Stack.eq_of_push room]
    rfl
  constructor
  case lock =>
    rw [Context.lockDepth_markValue, Context.stack_markValue, hanchor, Option.map_or, ← h.lock]
    cases (G name).anchors <;> rfl
  case behind =>
    rw [Context.location_markValue]
    exact @Context.valueIndex_markValue_le _ { c with stack := stack } h.behind _
  case room =>
    rw [Context.stack_markValue]
    exact Int.toNat_le_toNat hdepth
  case mark =>
    rw [Context.stack_markValue, hanchor]
    intro found hfound
    cases houter : G.anchor? c.stack.frames with
    | some first =>
      have hlocked : c.lockDepth.isSome = true := by
        rw [h.lock, houter]
        rfl
      rw [houter, Option.some_or, ← houter] at hfound
      rw [@Context.valueIndex_markValue_of_isSome _ { c with stack := stack } hlocked]
      exact h.mark found hfound
    | none =>
      have hfree : c.lockDepth = none := by
        rw [h.lock, houter]
        rfl
      rw [houter, Option.none_or] at hfound
      cases hanchors : (G name).anchors with
      | false =>
        rw [hanchors] at hfound
        cases hfound
      | true =>
        rw [hanchors] at hfound
        cases hfound
        rw [@Context.valueIndex_markValue_of_anchors _ { c with stack := stack } _ hfree hanchors]

/-- A frame is popped, and the lock goes with the anchor. -/
theorem closed {frame : Frame σ} {stack : Stack σ} (h : Anchored G c)
    (popped : c.stack.pop = .ok (frame, stack)) :
    Anchored G { c with stack := stack }.unlockValue := by
  have hstack := Stack.eq_of_pop popped
  have hanchor : G.anchor? stack.frames =
      (G.anchor? c.stack.frames).filter fun found => found.2 ≤ stack.frames.length := by
    rw [hstack]
    exact Graph.anchor?_of_popped frame stack.frames
  constructor
  case lock =>
    rw [Context.lockDepth_unlockValue, Context.stack_unlockValue, hanchor, h.lock,
      Option.filter_map]
    rfl
  case mark =>
    rw [Context.stack_unlockValue, hanchor]
    intro found hfound
    rw [Context.unlockValue_eq]
    exact h.mark found (Option.mem_filter_iff.1 hfound).1
  case behind =>
    rw [Context.unlockValue_eq]
    exact h.behind
  case room =>
    have hdepth := h.room
    rw [hstack] at hdepth
    rw [Context.stack_unlockValue]
    exact Nat.le_of_succ_le hdepth

theorem configured (h : Anchored G c) (escapes expressions : Option Bool) :
    Anchored G (c.configure escapes expressions) where
  lock := (Graph.anchor?_configure c escapes expressions).symm ▸ h.lock
  mark := (Graph.anchor?_configure c escapes expressions).symm ▸ h.mark
  behind := h.behind
  room := by
    have hdepth : (c.configure escapes expressions).stack.depth = c.stack.depth :=
      List.length_modifyHead
    rw [hdepth]
    exact h.room

end Anchored

/-- Every move keeps the mark where the stack says. -/
theorem Move.anchored {s t : Session σ τ} (h : Move G L s t) (hs : Anchored G s.context) :
    Anchored G t.context := by
  cases h with
  | opened name room => exact hs.opened room
  | closed popped => exact hs.closed popped
  | configured escapes expressions => exact hs.configured escapes expressions
  | advanced inside => exact ⟨hs.lock, hs.mark, Nat.le_succ_of_le hs.behind, hs.room⟩
  | told signal => exact hs
  | remembered e lenient => exact ⟨hs.lock, hs.mark, hs.behind, hs.room⟩
  | substituted found => exact ⟨hs.lock, hs.mark, hs.behind, hs.room⟩

/-! ## While a frame stays -/

/-- Any number of moves during which more than `depth` frames are on the stack, so that the
frames up to the one above the first `depth` ones stay. -/
abbrev MovesAbove (G : Graph σ) (L : Listener σ τ) (depth : Nat) :
    Session σ τ → Session σ τ → Prop :=
  Relation.ReflTransGen fun s t => Move G L s t ∧ depth < t.context.stack.depth

theorem Move.anchor?_eq {s t : Session σ τ} {location : Int} {depth : Nat} (h : Move G L s t)
    (hdepth : depth ≤ t.context.stack.depth)
    (hs : G.anchor? s.context.stack.frames = some (location, depth)) :
    G.anchor? t.context.stack.frames = some (location, depth) := by
  cases h with
  | opened name room =>
    rw [Context.stack_markValue, Stack.eq_of_push room]
    exact Graph.anchor?_append_of_some [_] hs
  | closed popped =>
    rw [Context.stack_unlockValue] at hdepth ⊢
    rw [Stack.eq_of_pop popped] at hs
    rw [Graph.anchor?_of_popped, hs]
    exact Option.filter_some_pos (decide_eq_true hdepth)
  | configured escapes expressions =>
    rw [Graph.anchor?_configure]
    exact hs
  | _ => exact hs

/-- As long as the anchor is not popped, it is the anchor. -/
theorem MovesAbove.anchor?_eq {s t : Session σ τ} {location : Int} {depth : Nat}
    (h : MovesAbove G L depth s t)
    (hs : G.anchor? s.context.stack.frames = some (location, depth + 1)) :
    G.anchor? t.context.stack.frames = some (location, depth + 1) := by
  induction h with
  | refl => exact hs
  | tail _ last ih => exact last.1.anchor?_eq last.2 ih

theorem MovesAbove.moves {s t : Session σ τ} {depth : Nat} (h : MovesAbove G L depth s t) :
    Moves G L s t :=
  Relation.ReflTransGen.mono (fun _ _ => And.left) _ _ h

/-! ## Calls -/

/-- What can be asked of a context from outside. -/
inductive Call (σ : Type) where
  /-- Enter a state. -/
  | enter (state : σ)
  /-- Leave the current state. -/
  | leave
  /-- Move the cursor to the next character. -/
  | advance
  /-- Switch escapes and expressions for the scope of the current state. -/
  | configure (escapes expressions : Option Bool)
  /-- Replace the expression or the variable under the cursor. -/
  | resolve

/-- What a call does. -/
def Call.program (G : Graph σ) (L : Listener σ τ) : Call σ → Machine σ τ Unit
  | enter state => Machine.enter G L state
  | leave => discard (Machine.leave G L)
  | advance => Machine.advance
  | configure escapes expressions => Machine.configure escapes expressions
  | resolve => Machine.resolve

/-- The session after some calls; one that ends early leaves its session to the next one. -/
def afterCalls (G : Graph σ) (L : Listener σ τ) (calls : List (Call σ)) (s : Session σ τ) :
    Session σ τ :=
  calls.foldl (fun s call => Machine.after (call.program G L) s) s

theorem Call.follows (call : Call σ) : Machine.Follows G L (call.program G L) := by
  cases call with
  | enter state => exact .enter state
  | leave => exact .discard .leave
  | advance => exact .advance
  | configure escapes expressions => exact .configure escapes expressions
  | resolve => exact .resolve

theorem Moves.of_calls (calls : List (Call σ)) (s : Session σ τ) :
    Moves G L s (afterCalls G L calls s) := by
  induction calls generalizing s with
  | nil => exact .refl
  | cons call rest ih => exact (call.follows s).trans (ih _)

/-- At every moment from the end of any calls on, the value mark is locked as long as a frame is on
the stack whose state locks it; it is then where the outermost such frame was entered, and it stays
there until that frame is popped.  It is never past the cursor, and the stack is never higher than
its limit. -/
theorem valueMark_follows_stack (settings : Settings) (strict : Bool) (text : Text) (gathered : τ)
    (calls : List (Call σ)) {s : Session σ τ}
    (hs : Moves G L (afterCalls G L calls (.start settings strict text gathered)) s) :
    (s.context.valueLocked = true ↔
      ∃ frame ∈ s.context.stack.frames, (G frame.state).anchors = true) ∧
    (∀ inner frame outer, s.context.stack.frames = inner ++ frame :: outer →
      (G frame.state).anchors = true → (∀ other ∈ outer, (G other.state).anchors = false) →
      ∀ t, MovesAbove G L outer.length s t →
        t.context.valueLocked = true ∧ (t.context.valueIndex : Int) = frame.location) ∧
    s.context.valueIndex ≤ s.context.location ∧
    s.context.stack.depth ≤ settings.maxDepth.toNat := by
  have hmoves : Moves G L (.start settings strict text gathered) s :=
    (Moves.of_calls calls _).trans hs
  have every {t : Session σ τ} (ht : Moves G L (.start settings strict text gathered) t) :
      Anchored G t.context :=
    ht.induct (P := fun u => Anchored G u.context) Move.anchored (.start settings strict text)
  refine ⟨(every hmoves).locked_iff, ?_, (every hmoves).behind, ?_⟩
  · intro inner frame outer hframes hanchors houter t ht
    have hthere := every (hmoves.trans ht.moves)
    have hanchor : G.anchor? t.context.stack.frames = some (frame.location, outer.length + 1) :=
      ht.anchor?_eq (hframes ▸ Graph.anchor?_of_outermost hanchors houter)
    refine ⟨?_, hthere.mark _ hanchor⟩
    rw [Context.valueLocked, hthere.lock, hanchor]
    rfl
  · have hlimit : s.context.stack.maxDepth = settings.maxDepth := Moves.maxDepth_eq hmoves
    exact hlimit ▸ (every hmoves).room

end

/-- A state that locks the mark and a state that would move it. -/
def lockingGraph : Graph Bool := fun locks =>
  { name := "value", marksValue := true, locksValue := locks }

/-- A moment at which a state that would move the mark stands inside one that locks it. -/
def lockedMoment : Session Bool Unit :=
  afterCalls lockingGraph .silent
    [.enter true, .advance, .leave, .enter true, .advance, .enter false, .resolve]
    (.start {} true "abc".toList ())

theorem valueMark_follows_stack_of_nested :
    lockedMoment.context.valueLocked = true ∧ (lockedMoment.context.valueIndex : Int) = 1 ∧
      lockedMoment.context.location = 2 := by
  have hmark := (valueMark_follows_stack {} true "abc".toList () _ (s := lockedMoment) .refl).2.1
  obtain ⟨hlocked, hindex⟩ := hmark [⟨false, 2, true, true⟩] ⟨true, 1, true, true⟩ [] rfl rfl
    (by simp) lockedMoment .refl
  exact ⟨hlocked, hindex, rfl⟩

end CommandLine
