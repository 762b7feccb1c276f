/-
# `CommandLine.Proofs.ValueText` — how the text of a value is read

A *draft* is a scene of the command grammar, the active states with the sketch of the command.  The
rules say what one action does to a draft, so that the states can be followed along a line without
the machine.

Inside a value all characters are content; what they change is which parts are open.  `inside`
says so for one character and `scan` for a text, on the active states alone: a text that is scanned
is taken into the token as it stands (`walk_of_scan`).  The same text is therefore read alike
wherever the same states are active, which is what writing a value and reading it again comes to.
-/
import CommandLine.Proofs.Sketches

namespace CommandLine

open Text

/-- The active states, and what is known about the command. -/
abbrev Draft := Scene StateName Sketch

namespace Draft

/-- Performs an action that sets off others at most `limit` deep. -/
abbrev act (p : Spot) (limit : Nat) : Action StateName → Draft → Option Draft :=
  Scene.actUpTo grammar Sketch.react p limit

/-- Handles the character under the cursor. -/
abbrev handle (p : Spot) : Draft → Option Draft := Scene.handle grammar Sketch.react p

/-- Reads a text after another one and before a third one. -/
abbrev walk (maxDepth : Int) (before text after : Text) : Draft → Option Draft :=
  Scene.walk grammar Sketch.react maxDepth before text after

/-- Ends and leaves all states. -/
abbrev finish (p : Spot) : Draft → Option Draft := Scene.finish grammar Sketch.react p

/-! ## Rules -/

section

variable {p : Spot} {n : Nat} {x y : StateName} {outer : List StateName} {k k' k'' : Sketch}
  {d : Char}

theorem act_enter (hroom : outer.length < p.maxDepth)
    (hreact : Sketch.react p (.entered x) (x :: outer) k = some k') :
    act p (n + 1) (.enter x) ⟨outer, k⟩ = act p n (grammar x).onEnter ⟨x :: outer, k'⟩ :=
  Scene.act_enter hroom hreact

theorem act_enter_full (hfull : p.maxDepth ≤ outer.length) :
    act p (n + 1) (.enter x) ⟨outer, k⟩ = none := by
  have hopening : Scene.opening p x (⟨outer, k⟩ : Draft) = none := if_pos hfull
  show ((Scene.opening p x ⟨outer, k⟩).bind fun sc =>
    (Scene.tell Sketch.react p (.entered x) sc).bind (act p n (grammar x).onEnter)) = _
  rw [hopening]
  rfl

theorem act_leave (hreact : Sketch.react p (.leaving x) (x :: y :: outer) k = some k') :
    act p (n + 2) .leave ⟨x :: y :: outer, k⟩ =
      act p (n + 1) (grammar y).onReturn ⟨y :: outer, k'⟩ :=
  Scene.act_leave hreact

theorem react_content (hd : p.character? = some d) :
    Sketch.react p .content outer k = some (k.append [d]) := by
  rw [Sketch.react, hd]
  rfl

theorem act_content (hd : p.character? = some d) :
    act p (n + 1) .content ⟨outer, k⟩ = some ⟨outer, k.append [d]⟩ :=
  Scene.act_content (react_content hd)

theorem act_contentAndLeave (hd : p.character? = some d) :
    act p (n + 1) .contentAndLeave ⟨outer, k⟩ =
      act p (n + 1) .leave ⟨outer, k.append [d]⟩ :=
  Scene.act_contentAndLeave (react_content hd)

theorem handle_cons (hd : p.character? = some d) :
    handle p ⟨x :: outer, k⟩ = act p 1000 ((grammar x).actionFor [d]) ⟨x :: outer, k⟩ :=
  Scene.handle_cons hd

theorem act_dispatch (hd : p.character? = some d) :
    act p (n + 1) .dispatch ⟨x :: outer, k⟩ =
      act p n ((grammar x).actionFor [d]) ⟨x :: outer, k⟩ := by
  show act p n ((grammar x).actionFor p.character?.toList) _ = _
  rw [hd]
  rfl

end

section

variable {p : Spot} {n : Nat} {x : StateName} {sc : Draft} {a b : Action StateName}

theorem act_chain : act p (n + 1) (.chain [a, b]) sc = (act p n a sc).bind (act p n b) := by
  show (act p n a sc).bind (fun sc => (act p n b sc).bind some) = _
  simp only [Option.bind_fun_some]

theorem act_leaveOnGap : act p (n + 1) .leaveOnGap sc =
    if p.character?.any isGap then act p (n + 1) .leave sc else some sc := rfl

theorem act_leaveOn (characters : Text) : act p (n + 1) (.leaveOn characters) sc =
    if p.character?.any characters.contains then act p (n + 1) .leave sc else some sc := rfl

theorem act_enterUnlessEnd : act p (n + 1) (.enterUnlessEnd x) sc =
    if p.rest.isEmpty then some sc else act p (n + 1) (.enter x) sc := rfl

theorem act_besideSeparator (following preceding : Text) :
    act p (n + 1) (.besideSeparator following preceding a) sc =
      if p.isBesideSeparator following preceding then some sc else act p n a sc := rfl

end

theorem walk_cons {maxDepth : Int} {before text after : Text} {d : Char} {sc : Draft} :
    walk maxDepth before (d :: text) after sc =
      (handle ⟨maxDepth, before, d :: (text ++ after)⟩ sc).bind
        (walk maxDepth (before ++ [d]) text after) := rfl

theorem walk_cons_of {maxDepth : Int} {before text after : Text} {d : Char} {sc sc' : Draft}
    (h : handle ⟨maxDepth, before, d :: (text ++ after)⟩ sc = some sc') :
    walk maxDepth before (d :: text) after sc = walk maxDepth (before ++ [d]) text after sc' := by
  rw [walk_cons, h, Option.bind_some]

theorem walk_append_of {maxDepth : Int} {before first second after : Text} {sc sc' : Draft}
    (h : walk maxDepth before first (second ++ after) sc = some sc') :
    walk maxDepth before (first ++ second) after sc =
      walk maxDepth (before ++ first) second after sc' :=
  Scene.walk_append_of h

/-- A text stays within a token if each of its characters is content. -/
theorem walk_content {maxDepth : Int} {x : StateName} {outer : List StateName}
    {accepts : Char → Bool}
    (hcontent : ∀ d, accepts d = true → (grammar x).actionFor [d] = .content) {text : Text}
    (htext : text.all accepts = true) (before after : Text) (k : Sketch) :
    walk maxDepth before text after ⟨x :: outer, k⟩ = some ⟨x :: outer, k.append text⟩ := by
  induction text generalizing before k with
  | nil =>
    rw [Sketch.append_nil]
    rfl
  | cons d text ih =>
    rw [List.all_cons, Bool.and_eq_true] at htext
    rw [walk_cons, handle_cons rfl, hcontent d htext.1, act_content rfl, Option.bind_some,
      ih htext.2, Sketch.append_append, List.singleton_append]

/-! ## The end of a line -/

end Draft

/-- The line may end in the state: no delimiter is missing. -/
def StateName.toleratesEnd (x : StateName) : Bool :=
  match (grammar x).onEnd with
  | .skip => true
  | _ => false

namespace Draft

/-- What leaving all states but the outermost one comes to, in any number of rounds that is not too
small. -/
def Unwinds (p : Spot) (sc : Draft) (last : Option Draft) : Prop :=
  ∀ limit, sc.active.length ≤ limit → Scene.unwind grammar Sketch.react p limit sc = last

/-- Leaves the innermost state. -/
abbrev leave (p : Spot) : Draft → Option Draft := act p 1001 .leave

section

variable {p : Spot} {x y : StateName} {outer : List StateName} {k k' : Sketch} {sc : Draft}
  {last : Option Draft}

theorem endState_of_toleratesEnd (hx : x.toleratesEnd = true) :
    Scene.endState grammar Sketch.react p ⟨x :: outer, k⟩ = some ⟨x :: outer, k⟩ := by
  have honEnd : (grammar x).onEnd = .skip := by
    cases x <;> first | rfl | cases hx
  show Scene.act grammar Sketch.react p (grammar x).onEnd ⟨x :: outer, k⟩ = _
  rw [honEnd]
  rfl

theorem endState_of_not_toleratesEnd (hx : x.toleratesEnd = false) :
    Scene.endState grammar Sketch.react p ⟨x :: outer, k⟩ = none := by
  cases x <;> first | rfl | cases hx

namespace Unwinds

theorem single : Unwinds p ⟨[x], k⟩ (some ⟨[x], k⟩) := by
  intro limit _
  cases limit <;> rfl

theorem isInner : 1 < (⟨x :: y :: outer, k⟩ : Draft).active.length :=
  Nat.succ_lt_succ (Nat.succ_pos _)

/-- A round. -/
theorem unwind_succ (limit : Nat) :
    Scene.unwind grammar Sketch.react p (limit + 1) ⟨x :: y :: outer, k⟩ =
      (Scene.endState grammar Sketch.react p ⟨x :: y :: outer, k⟩).bind fun sc =>
        (if 1 < sc.active.length then leave p sc else some sc).bind
          (Scene.unwind grammar Sketch.react p limit) := by
  rw [Scene.unwind, if_pos isInner]
  refine congrArg (Option.bind _) (funext fun sc => ?_)
  split <;> rfl

/-- A state is left. -/
theorem leaving (hx : x.toleratesEnd = true) (hleave : leave p ⟨x :: y :: outer, k⟩ = some sc)
    (hlength : sc.active.length ≤ outer.length + 1) (h : Unwinds p sc last) :
    Unwinds p ⟨x :: y :: outer, k⟩ last := by
  intro limit hlimit
  obtain ⟨limit, rfl⟩ := Nat.exists_eq_add_of_lt (Nat.lt_of_lt_of_le (Nat.succ_pos _) hlimit)
  rw [List.length_cons, List.length_cons] at hlimit
  rw [Nat.zero_add, unwind_succ, endState_of_toleratesEnd hx, Option.bind_some,
    if_pos isInner, hleave]
  exact h limit (by omega)

/-- A delimiter is missing. -/
theorem missing (hx : x.toleratesEnd = false) : Unwinds p ⟨x :: y :: outer, k⟩ none := by
  intro limit hlimit
  obtain ⟨limit, rfl⟩ := Nat.exists_eq_add_of_lt (Nat.lt_of_lt_of_le (Nat.succ_pos _) hlimit)
  rw [Nat.zero_add, unwind_succ, endState_of_not_toleratesEnd hx, Option.bind_none]

end Unwinds

/-- Drafts that come to the same when states are left end a line alike. -/
theorem finish_congr {sc' : Draft} (h : Unwinds p sc last) (h' : Unwinds p sc' last) :
    finish p sc = finish p sc' := by
  rw [finish, Scene.finish, Scene.finish, h _ (by omega), h' _ (by omega)]

theorem finish_of_unwinds (h : Unwinds p sc (some ⟨[x], k⟩)) (hx : x.toleratesEnd = true)
    (hreact : Sketch.react p (.leaving x) [x] k = some k') :
    finish p sc = some ⟨[], k'⟩ := by
  rw [finish, Scene.finish, h _ (by omega)]
  show ((Scene.endState grammar Sketch.react p ⟨[x], k⟩).bind fun sc =>
    if 0 < sc.active.length then Scene.leave grammar Sketch.react p sc else some sc) = _
  rw [endState_of_toleratesEnd hx]
  exact Scene.leave_last hreact

theorem finish_of_unwinds_none (h : Unwinds p sc none) : finish p sc = none := by
  rw [finish, Scene.finish, h _ (by omega)]
  rfl

end
end Draft

/-! ## Inside a value -/

namespace StateName

/-- The state is a part of a value between delimiters or after a backslash. -/
def isPart : StateName → Bool
  | brackets | parentheses | braces | quotes | backQuotes | escape => true
  | _ => false

/-- A part of a value goes on with what is around it, and of that only the name of a property looks
at the character. -/
theorem onReturn_of_holds_part {x y : StateName} (held : x ∈ y.holds) (hx : x.isPart = true) :
    y = property ∨ (grammar y).onReturn = .skip := by
  cases y <;> first
    | exact .inl rfl
    | exact .inr rfl
    | cases x <;> first | exact absurd held (by decide) | cases hx

/-- The state does nothing when an inner state has been left. -/
def resumes (x : StateName) : Bool :=
  match (grammar x).onReturn with
  | .skip => true
  | _ => false

end StateName

/-- The character after a backslash is taken as it is. -/
theorem actionFor_escape (d : Char) : (grammar .escape).actionFor [d] = .contentAndLeave := by
  rw [State.actionFor_singleton]
  exact ite_self _

/-- The action takes the character into a value without leaving a state. -/
def Action.staysInside : Action StateName → Bool
  | .content => true
  | .enter y | .escape y => y.isPart
  | _ => false

/-- The action takes the character into a value. -/
def Action.takesIn (action : Action StateName) : Bool :=
  match action with
  | .contentAndLeave => true
  | _ => action.staysInside

/-- The active states after a part of a value has been opened, if there is room for it. -/
def openPart (maxDepth : Int) (y : StateName) (active : List StateName) :
    Option (List StateName) :=
  if y.isPart ∧ active.length < maxDepth then some (y :: active) else none

/-- The active states after a character that is taken into a value. -/
def inside (maxDepth : Int) (d : Char) (active : List StateName) : Option (List StateName) :=
  match active with
  | [] => none
  | x :: outer =>
    match (grammar x).actionFor [d] with
    | .content => some active
    | .contentAndLeave => if x.isPart && outer.head?.any StateName.resumes then some outer else none
    | .enter y => openPart maxDepth y active
    | .escape y => if grammar.escapesIn active then openPart maxDepth y active else some active
    | _ => none

/-- The active states after a text that is taken into a value. -/
def scan (maxDepth : Int) (text : Text) (active : List StateName) : Option (List StateName) :=
  text.foldlM (fun active d => inside maxDepth d active) active

section

variable {maxDepth : Int} {active active' : List StateName} {text first second : Text} {d : Char}
  {x y : StateName} {outer : List StateName}

theorem scan_cons (d : Char) (text : Text) (active : List StateName) :
    scan maxDepth (d :: text) active = (inside maxDepth d active).bind (scan maxDepth text) :=
  rfl

theorem scan_append (first second : Text) (active : List StateName) :
    scan maxDepth (first ++ second) active =
      (scan maxDepth first active).bind (scan maxDepth second) :=
  List.foldlM_append

theorem openPart_eq_some (h : openPart maxDepth y active = some active') :
    y.isPart = true ∧ active.length < maxDepth ∧ active' = y :: active := by
  unfold openPart at h
  split at h
  · next hroom =>
    cases h
    exact ⟨hroom.1, hroom.2, rfl⟩
  · cases h

namespace Draft

variable {p : Spot} {n : Nat} {k : Sketch}

/-- A part of a value is opened by a character that is content. -/
theorem act_enter_part (hd : p.character? = some d)
    (h : openPart p.maxDepth y active = some active') :
    act p (n + 2) (.enter y) ⟨active, k⟩ =
      some ⟨active', k.append [d]⟩ := by
  obtain ⟨hpart, hroom, rfl⟩ := openPart_eq_some h
  have hentered : Sketch.react p (.entered y) (y :: active) k = some k := by
    cases y <;> first | rfl | cases hpart
  have hfirst : (grammar y).onEnter = .content := by
    cases y <;> first | rfl | cases hpart
  rw [act_enter hroom hentered, hfirst, act_content hd]

/-- A character inside a value is content. -/
theorem act_of_inside (hd : p.character? = some d)
    (h : inside p.maxDepth d (x :: outer) = some active') :
    act p (n + 3) ((grammar x).actionFor [d]) ⟨x :: outer, k⟩ =
      some ⟨active', k.append [d]⟩ := by
  unfold inside at h
  dsimp only at h
  cases haction : (grammar x).actionFor [d] with
  | content =>
    rw [haction] at h
    cases h
    exact act_content hd
  | contentAndLeave =>
    rw [haction] at h
    simp only [Option.ite_none_right_eq_some, Bool.and_eq_true] at h
    obtain ⟨⟨hpart, hresumes⟩, hactive⟩ := h
    cases outer with
    | nil => cases hresumes
    | cons y outer =>
      cases hactive
      have hleaving (k : Sketch) : Sketch.react p (.leaving x) (x :: y :: outer) k = some k := by
        cases x <;> first | rfl | cases hpart
      have hreturn : (grammar y).onReturn = .skip := by
        cases y <;> first | rfl | cases hresumes
      rw [act_contentAndLeave hd, act_leave (hleaving _), hreturn]
      rfl
  | enter y =>
    rw [haction] at h
    exact act_enter_part hd h
  | escape y =>
    rw [haction] at h
    show (if grammar.escapesIn (x :: outer) then act p (n + 3) (.enter y) ⟨x :: outer, k⟩
      else act p (n + 3) .content ⟨x :: outer, k⟩) = _
    dsimp only at h
    split at h
    · next hescapes =>
      rw [if_pos hescapes]
      exact act_enter_part hd h
    · next hescapes =>
      cases h
      rw [if_neg hescapes]
      exact act_content hd
  | _ =>
    rw [haction] at h
    cases h

/-- All that an action that stays inside a value can do. -/
theorem act_of_staysInside (hd : p.character? = some d)
    (hstays : ((grammar x).actionFor [d]).staysInside = true) :
    act p (n + 3) ((grammar x).actionFor [d]) ⟨x :: outer, k⟩ =
      (inside p.maxDepth d (x :: outer)).map fun active => ⟨active, k.append [d]⟩ := by
  cases h : inside p.maxDepth d (x :: outer) with
  | some active' => exact act_of_inside hd h
  | none =>
    have full {y : StateName} (hpart : y.isPart = true)
        (h : openPart p.maxDepth y (x :: outer) = none) :
        act p (n + 3) (.enter y) ⟨x :: outer, k⟩ = none := by
      rw [openPart] at h
      split at h
      · cases h
      · next hfull => exact act_enter_full (Int.not_lt.1 fun hroom => hfull ⟨hpart, hroom⟩)
    unfold inside at h
    dsimp only at h
    cases haction : (grammar x).actionFor [d] with
    | content =>
      rw [haction] at h
      cases h
    | enter y =>
      rw [haction] at h hstays
      exact full hstays h
    | escape y =>
      rw [haction] at h hstays
      dsimp only at h
      split at h
      · next hescapes =>
        show (if grammar.escapesIn (x :: outer) then act p (n + 3) (.enter y) ⟨x :: outer, k⟩
          else act p (n + 3) .content ⟨x :: outer, k⟩) = _
        rw [if_pos hescapes, full hstays h]
        rfl
      · cases h
    | _ =>
      rw [haction] at hstays
      cases hstays

theorem handle_of_inside (hd : p.character? = some d)
    (h : inside p.maxDepth d active = some active') :
    handle p ⟨active, k⟩ = some ⟨active', k.append [d]⟩ := by
  cases active with
  | nil => cases h
  | cons x outer => rw [handle_cons hd, act_of_inside hd h]

/-- In a part of a value all characters are content. -/
theorem handle_part (hd : p.character? = some d) (hx : x.isPart = true)
    (hy : y.resumes = true) :
    handle p ⟨x :: y :: outer, k⟩ =
      (inside p.maxDepth d (x :: y :: outer)).map fun active => ⟨active, k.append [d]⟩ := by
  have htaken : ((grammar x).actionFor [d]).takesIn = true := by
    refine State.actionFor_all ?_ ?_ ?_ [d]
    all_goals cases x <;> first | rfl | cases hx
  cases hstays : ((grammar x).actionFor [d]).staysInside with
  | true => rw [handle_cons hd, act_of_staysInside hd hstays]
  | false =>
    have hinside : inside p.maxDepth d (x :: y :: outer) = some (y :: outer) := by
      unfold inside
      cases haction : (grammar x).actionFor [d] with
      | contentAndLeave => simp [haction, hx, hy]
      | _ => simp_all [Action.takesIn]
    rw [handle_of_inside hd hinside, hinside]
    rfl

/-- A text that is scanned is taken into the token. -/
theorem walk_of_scan (before after : Text) (h : scan maxDepth text active = some active') :
    walk maxDepth before text after ⟨active, k⟩ =
      some ⟨active', k.append text⟩ := by
  induction text generalizing before active k with
  | nil =>
    cases h
    rw [Sketch.append_nil]
    rfl
  | cons d text ih =>
    rw [scan_cons] at h
    obtain ⟨next, hnext, h⟩ := Option.bind_eq_some_iff.1 h
    rw [walk_cons, handle_of_inside rfl hnext, Option.bind_some, ih _ h, Sketch.append_append,
      List.singleton_append]

end Draft

/-! ## Parts that are open -/

theorem StateName.resumes_of_isPart (hx : x.isPart = true) : x.resumes = true := by
  cases x <;> first | rfl | cases hx

/-- The active states are those of a value, and maybe parts of it. -/
def Opened (value active : List StateName) : Prop :=
  ∃ opened : List StateName, (∀ x ∈ opened, x.isPart = true) ∧ active = opened ++ value

namespace Opened

theorem refl (value : List StateName) : Opened value value := ⟨[], nofun, rfl⟩

theorem part (hx : x.isPart = true) (h : Opened outer active) : Opened outer (x :: active) := by
  obtain ⟨opened, hopened, rfl⟩ := h
  exact ⟨x :: opened, by simpa using ⟨hx, hopened⟩, rfl⟩

theorem inside (hx : x.isPart = false) (hactive : Opened (x :: outer) active)
    (h : inside maxDepth d active = some active') : Opened (x :: outer) active' := by
  have hentered {y : StateName} (h : openPart maxDepth y active = some active') :
      Opened (x :: outer) active' := by
    obtain ⟨hy, -, rfl⟩ := openPart_eq_some h
    exact hactive.part hy
  -- only a part is ever left
  have hleft {z : StateName} {rest : List StateName} (hz : z.isPart = true)
      (hrest : active = z :: rest) : Opened (x :: outer) rest := by
    obtain ⟨opened, hopened, rfl⟩ := hactive
    cases opened with
    | nil =>
      cases hrest
      exact absurd hz (Bool.not_eq_true _ ▸ hx)
    | cons w opened =>
      cases hrest
      exact ⟨opened, (List.forall_mem_cons.1 hopened).2, rfl⟩
  unfold CommandLine.inside at h
  split at h
  · cases h
  · split at h
    · cases h
      exact hactive
    · simp only [Option.ite_none_right_eq_some, Bool.and_eq_true] at h
      obtain ⟨⟨hz, -⟩, hrest⟩ := h
      cases hrest
      exact hleft hz rfl
    · exact hentered h
    · split at h
      · exact hentered h
      · cases h
        exact hactive
    · cases h

/-- What is scanned opens and closes parts only. -/
theorem scan (hx : x.isPart = false) (hactive : Opened (x :: outer) active)
    (h : scan maxDepth text active = some active') : Opened (x :: outer) active' := by
  induction text generalizing active with
  | nil =>
    cases h
    exact hactive
  | cons d text ih =>
    rw [scan_cons] at h
    obtain ⟨next, hnext, h⟩ := Option.bind_eq_some_iff.1 h
    exact ih (hactive.inside hx hnext) h

end Opened

namespace Draft

variable {p : Spot} {k : Sketch}

/-- A part of a value is left. -/
theorem leave_part (hx : x.isPart = true) (hy : y.resumes = true) :
    leave p ⟨x :: y :: outer, k⟩ = some ⟨y :: outer, k⟩ := by
  have hleaving : Sketch.react p (.leaving x) (x :: y :: outer) k = some k := by
    cases x <;> first | rfl | cases hx
  have hreturn : (grammar y).onReturn = .skip := by
    cases y <;> first | rfl | cases hy
  rw [leave, act_leave hleaving, hreturn]
  rfl

/-- The parts that are open at the end of a line must be such that nothing is missing. -/
theorem unwinds_opened {opened : List StateName} {last : Option Draft}
    (hopened : ∀ z ∈ opened, z.isPart = true) (hx : x.resumes = true)
    (h : Unwinds p ⟨x :: y :: outer, k⟩ last) :
    Unwinds p ⟨opened ++ x :: y :: outer, k⟩
      (if opened.all StateName.toleratesEnd then last else none) := by
  induction opened with
  | nil => exact h
  | cons z opened ih =>
    rw [List.forall_mem_cons] at hopened
    have hlater := ih hopened.2
    obtain ⟨w, w', rest, hrest, hw⟩ : ∃ w w' rest,
        opened ++ x :: y :: outer = w :: w' :: rest ∧ w.resumes = true := by
      cases opened with
      | nil => exact ⟨x, y, outer, rfl, hx⟩
      | cons w opened =>
        have hw := StateName.resumes_of_isPart (List.forall_mem_cons.1 hopened.2).1
        cases opened with
        | nil => exact ⟨w, x, y :: outer, rfl, hw⟩
        | cons w' opened => exact ⟨w, w', _, rfl, hw⟩
    rw [List.cons_append, hrest]
    rw [hrest] at hlater
    cases hz : z.toleratesEnd with
    | true =>
      rw [List.all_cons, hz, Bool.true_and]
      exact hlater.leaving hz (leave_part hopened.1 hw) (by simp)
    | false =>
      rw [List.all_cons, hz, Bool.false_and]
      exact Unwinds.missing hz

end Draft
end
end CommandLine
