/-
# `CommandLine.Proofs.ArgumentLine` — a line of arguments written and read again

What a line of arguments says can also be written: all arguments that have been read are legible
(`Midway`, an invariant of reading), so that arguments and output target are *sayable*.  What is
sayable is read as it is written (`read_argumentLine`).

The two facts meet in `Command.argumentsSurvive_iff_of_read`.  The lines that are not read again
are those that are blank but say something: an argument may consist of characters that count as
blanks where a whole line is looked at, and as content where the arguments are told apart.
-/
import CommandLine.Proofs.ArgumentText

namespace CommandLine

open Text Argument Draft

/-! ## Reading a list of arguments -/

/-- A list of arguments is being read; the arguments that are complete are legible. -/
inductive Midway (maxDepth : Int) (outer : List StateName) (k : Sketch) : Draft → Prop
  /-- Between two arguments. -/
  | between {args : List Said} (hargs : args.all (Said.isLegible maxDepth outer false) = true) :
    Midway maxDepth outer k ⟨argumentStates outer, k.having args⟩
  /-- Within an argument. -/
  | within {args : List Said} {a : Said} {sc : Draft}
      (hargs : args.all (Said.isLegible maxDepth outer false) = true)
      (hlast : Spelled maxDepth outer (k.having args) a sc) : Midway maxDepth outer k sc
  /-- Within the output target. -/
  | target {args : List Said} {text : Text}
      (hargs : args.all (Said.isLegible maxDepth outer false) = true)
      (hroom : (argumentStates outer).length < maxDepth) :
    Midway maxDepth outer k
      ⟨.outputTarget :: argumentStates outer, { k.having args with buffer := text }⟩

namespace Midway

variable {maxDepth : Int} {outer : List StateName} {k : Sketch} {p : Spot} {d : Char}
  {sc sc' : Draft}

theorem step (hk : k.inPropertyList = false) (hd : p.character? = some d)
    (h : Midway p.maxDepth outer k sc) (hhandle : handle p sc = some sc') :
    Midway p.maxDepth outer k sc' := by
  cases h with
  | between hargs =>
    obtain rfl | ⟨a, hspelled⟩ | ⟨hroom, rfl⟩ := Spelled.start hd hhandle
    · exact between hargs
    · exact within hargs hspelled
    · exact target hargs hroom
  | within hargs hspelled =>
    obtain ⟨ha, rfl⟩ | ⟨a, hspelled⟩ := hspelled.step (k := k.having _) hd hk hhandle
    · rw [Sketch.having_having]
      exact between (by rw [List.all_append, hargs, List.all_cons, ha]; rfl)
    · exact within hargs hspelled
  | target hargs hroom =>
    cases (handle_outputTarget hd).symm.trans hhandle
    exact target hargs hroom

theorem walk {before text after : Text} (hk : k.inPropertyList = false)
    (h : Midway maxDepth outer k sc)
    (hwalk : Draft.walk maxDepth before text after sc = some sc') :
    Midway maxDepth outer k sc' := by
  induction text generalizing before sc with
  | nil =>
    cases hwalk
    exact h
  | cons d text ih =>
    rw [walk_cons] at hwalk
    obtain ⟨next, hnext, hwalk⟩ := Option.bind_eq_some_iff.1 hwalk
    exact ih (step hk rfl h hnext) hwalk

/-- How a list of arguments ends: after an argument, or after an output target. -/
theorem finish (houter : Grounds p outer) (hk : k.inPropertyList = false)
    (h : Midway p.maxDepth outer k sc) (hfinish : Draft.finish p sc = some sc') :
    (∃ args, Said.areLegible p.maxDepth outer true args = true ∧
        Draft.finish p ⟨argumentStates outer, k.having args⟩ = some sc') ∨
      ∃ args target, args.all (Said.isLegible p.maxDepth outer false) = true ∧
        (argumentStates outer).length < p.maxDepth ∧ trim target = target ∧
        Draft.finish p ⟨argumentStates outer,
          { k.having args with outputTarget := some target }⟩ = some sc' := by
  cases h with
  | between hargs => exact .inl ⟨_, Said.areLegible_of_all houter.tolerant hargs, hfinish⟩
  | @within args a _ hargs hspelled =>
    obtain ⟨last, hlast⟩ := houter.unwinds ((k.having args).having [a])
    have hunwinds := hspelled.unwinds (k := k.having args) hk houter.tolerant hlast
    cases ha : a.isLegible p.maxDepth outer true with
    | true =>
      rw [if_pos ha] at hunwinds
      rw [finish_congr hunwinds hlast, Sketch.having_having] at hfinish
      refine .inl ⟨_, ?_, hfinish⟩
      rw [Said.areLegible_concat, hargs, ha]
      rfl
    | false =>
      rw [ha, if_neg Bool.false_ne_true] at hunwinds
      cases (finish_of_unwinds_none hunwinds).symm.trans hfinish
  | @target args text hargs hroom =>
    obtain ⟨last, hlast⟩ := houter.unwinds { k.having args with outputTarget := some (trim text) }
    have hunwinds : Unwinds p ⟨.outputTarget :: argumentStates outer,
        { k.having args with buffer := text }⟩ last :=
      hlast.leaving rfl leave_outputTarget (by simp)
    rw [finish_congr hunwinds hlast] at hfinish
    exact .inr ⟨args, trim text, hargs, hroom, trim_trim text, hfinish⟩

end Midway

/-! ## Lines of arguments -/

/-- Arguments and an output target that a line can say within some states. -/
inductive Sayable (maxDepth : Int) (outer : List StateName) : List Said → Option Text → Prop
  /-- The line says nothing. -/
  | nothing : Sayable maxDepth outer [] none
  /-- The line ends after an argument. -/
  | arguments {args : List Said} (hargs : Said.areLegible maxDepth outer true args = true) :
    Sayable maxDepth outer args none
  /-- The line ends after the output target. -/
  | target {args : List Said} {target : Text} (hroom : (argumentStates outer).length < maxDepth)
      (htrim : trim target = target)
      (hargs : args.all (Said.isLegible maxDepth outer false) = true) :
    Sayable maxDepth outer args (some target)

/-- The sketch of a line of arguments. -/
def Sketch.saying (args : List Said) (target : Option Text) : Sketch :=
  { arguments := args, outputTarget := target }

/-- An output target that is not empty. -/
def solidTarget (target : Option Text) : Option Text := target.filter fun text => !text.isEmpty

/-- A line of arguments as it is written. -/
def argumentLine (args : List Said) (target : Option Text) : Text :=
  [' '].intercalate (args.map Said.text ++ Format.target { outputTarget := target })

/-- A target is written unless it is empty. -/
theorem target_eq (c : Command) :
    Format.target c =
      ((solidTarget c.outputTarget).map fun target => '>' :: ' ' :: target).toList := by
  rw [Format.target]
  cases c.outputTarget with
  | none => rfl
  | some target => cases target <;> rfl

theorem solidTarget_solidTarget (target : Option Text) :
    solidTarget (solidTarget target) = solidTarget target := by
  cases target with
  | none => rfl
  | some target => cases target <;> rfl

section

variable {maxDepth : Int} {outer : List StateName} {text : Text} {k : Sketch} {args : List Said}
  {target : Option Text}

theorem Sayable.written (houter : outer.all StateName.toleratesEnd = true)
    (h : Sayable maxDepth outer args target) {a : Said} (ha : a ∈ args) :
    a.inPropertyList = false ∧ (({} : Format).argument? a.name a.value).isSome = true := by
  cases h with
  | nothing => cases ha
  | arguments hargs =>
    exact Said.written_of_isLegible (Said.isLegible_of_areLegible houter hargs ha)
  | target hroom htrim hargs => exact Said.written_of_isLegible (List.all_eq_true.1 hargs _ ha)

theorem Sayable.room (houter : outer.all StateName.toleratesEnd = true)
    (h : Sayable maxDepth outer args target)
    (hsolid : isBlankText (argumentLine args target) = false) :
    (argumentStates outer).length < maxDepth := by
  cases h with
  | nothing => cases hsolid
  | arguments hargs =>
    cases args with
    | nil => cases hsolid
    | cons a args =>
      exact Said.room_of_isLegible (Said.isLegible_of_areLegible houter hargs List.mem_cons_self)
  | target hroom htrim hargs => exact hroom

theorem argumentLine_solidTarget :
    argumentLine args (solidTarget target) = argumentLine args target := by
  cases target with
  | none => rfl
  | some target => cases target <;> rfl

theorem grounds_nil {p : Spot} : Grounds p [] := ⟨rfl, fun _ => ⟨_, Unwinds.single⟩⟩

theorem finish_argumentList {p : Spot} :
    Draft.finish p ⟨[.argumentList], k⟩ = some ⟨[], k⟩ :=
  finish_of_unwinds Unwinds.single rfl rfl

/-- Reading a line of arguments. -/
theorem read_argumentList (hroom : 0 < maxDepth) :
    Scene.read grammar Sketch.react maxDepth .argumentList text k =
      ((Draft.walk maxDepth [] text [] ⟨[.argumentList], k⟩).bind
        (Draft.finish ⟨maxDepth, text, []⟩)).map Scene.gathered := by
  have henter : Scene.enter grammar Sketch.react ⟨maxDepth, [], text⟩ .argumentList ⟨[], k⟩ =
      some ⟨[.argumentList], k⟩ :=
    act_enter (p := ⟨maxDepth, [], text⟩) (n := 1000) hroom rfl
  rw [Scene.read, henter]
  rfl

theorem room_of_read {k' : Sketch}
    (h : Scene.read grammar Sketch.react maxDepth .argumentList text k = some k') :
    0 < maxDepth := by
  refine Int.not_le.1 fun hfull => ?_
  have henter : Scene.enter grammar Sketch.react ⟨maxDepth, [], text⟩ .argumentList ⟨[], k⟩ =
      none :=
    act_enter_full (p := ⟨maxDepth, [], text⟩) (n := 1000) hfull
  rw [Scene.read, henter] at h
  cases h

/-- A line of arguments says nothing but what can be said. -/
theorem sayable_of_read
    (h : Scene.read grammar Sketch.react maxDepth .argumentList text {} = some k) :
    ∃ args target, Sayable maxDepth [] args target ∧ k = Sketch.saying args target := by
  have hroom := room_of_read h
  rw [read_argumentList hroom] at h
  obtain ⟨sc', hrun, rfl⟩ := Option.map_eq_some_iff.1 h
  obtain ⟨sc, hwalk, hfinish⟩ := Option.bind_eq_some_iff.1 hrun
  have hstart : Midway maxDepth [] {} ⟨[.argumentList], {}⟩ :=
    @Midway.between maxDepth [] {} [] rfl
  have hmidway := hstart.walk rfl hwalk
  obtain ⟨args, hargs, hfinish⟩ | ⟨args, target, hargs, hroom, htrim, hfinish⟩ :=
    hmidway.finish (p := ⟨maxDepth, text, []⟩) grounds_nil rfl hfinish
  · cases finish_argumentList.symm.trans hfinish
    exact ⟨args, none, .arguments hargs, rfl⟩
  · cases finish_argumentList.symm.trans hfinish
    exact ⟨args, some target, .target hroom htrim hargs, rfl⟩

/-- What can be said at the end of a line is what is read there. -/
theorem finish_argumentLine {p : Spot} (houter : Grounds p outer) (hk : k.fresh = k)
    (hlist : k.inPropertyList = false) (hnone : k.outputTarget = none)
    (h : Sayable p.maxDepth outer args target) (before : Text) :
    (Draft.walk p.maxDepth before (argumentLine args target) [] ⟨argumentStates outer, k⟩).bind
        (Draft.finish p) =
      Draft.finish p ⟨argumentStates outer,
        { k.having args with outputTarget := solidTarget target }⟩ := by
  have untargeted (hargs : Said.areLegible p.maxDepth outer true args = true)
      (hline : argumentLine args target = Said.texts args) (htarget : solidTarget target = none) :
      (Draft.walk p.maxDepth before (argumentLine args target) [] ⟨argumentStates outer, k⟩).bind
          (Draft.finish p) =
        Draft.finish p ⟨argumentStates outer,
          { k.having args with outputTarget := solidTarget target }⟩ := by
    have hsketch : { k.having args with outputTarget := none } = k.having args := by
      rw [← hnone]
      rfl
    rw [hline, htarget, finish_texts houter hk hlist hargs, hsketch]
  cases h with
  | nothing => exact untargeted rfl rfl rfl
  | arguments hargs => exact untargeted hargs (congrArg _ (List.append_nil _)) rfl
  | @target _ target hroom htrim hargs =>
    cases target with
    | nil =>
      exact untargeted (Said.areLegible_of_all houter.tolerant hargs)
        (congrArg _ (List.append_nil _)) rfl
    | cons d target =>
      have hwalk := @finish_texts_target outer k args p (d :: target) houter hroom hk hlist hargs
        before
      rw [htrim] at hwalk
      exact hwalk

/-- What can be said is what the line says in which it is written, unless that line is blank. -/
theorem read_argumentLine (hroom : 0 < maxDepth) (h : Sayable maxDepth [] args target) :
    Scene.read grammar Sketch.react maxDepth .argumentList (argumentLine args target) {} =
      some (Sketch.saying args (solidTarget target)) := by
  rw [read_argumentList hroom, finish_argumentLine (p := ⟨maxDepth, argumentLine args target, []⟩)
    grounds_nil rfl rfl rfl h, finish_argumentList]
  rfl

end

/-! ## Commands -/

/-- Arguments that have something to write are written as they are. -/
theorem Format.arguments_eq_texts {args : List Argument}
    (h : ∀ a ∈ args, (({} : Format).argument? a.name a.value).isSome = true) :
    ({} : Format).arguments args = (args.map Argument.said).map Said.text := by
  rw [arguments, List.map_map, ← List.filterMap_eq_map]
  refine List.filterMap_congr fun a ha => ?_
  obtain ⟨text, htext⟩ := Option.isSome_iff_exists.1 (h a ha)
  simp only [Function.comp_apply, Said.text, Argument.said, htext, Option.getD_some]

namespace Command

/-- The names and values of the arguments. -/
def pairs (c : Command) : List (Option Text × Option Text) :=
  c.arguments.map fun a => (a.name, a.value)

/-- The output target, unless it is empty. -/
def target? (c : Command) : Option Text := solidTarget c.outputTarget

/-- The arguments and the output target are the same again when they are written and read, and so
is the text that they are written as. -/
def ArgumentsSurvive (settings : Settings) (c : Command) : Prop :=
  ∃ d, Command.read settings true .arguments [] (some c.toLine) = .ok d ∧ d.pairs = c.pairs ∧
    d.target? = c.target? ∧ d.toLine = c.toLine

section

variable {settings : Settings} {c : Command} {args : List Said} {target : Option Text}

theorem pairs_eq (c : Command) :
    c.pairs = (Sketch.ofCommand c).arguments.map fun a => (a.name, a.value) := by
  simp [pairs, Sketch.ofCommand, Sketch.of, Argument.said]

/-- A command that has arguments and an output target only is written as a line of arguments. -/
theorem toLine_of_arguments (hc : Sketch.ofCommand c = Sketch.saying args target)
    (hargs : ∀ a ∈ args, a.inPropertyList = false ∧
      (({} : Format).argument? a.name a.value).isSome = true) :
    c.toLine = argumentLine args target := by
  have harguments : c.arguments.map Argument.said = args := congrArg Sketch.arguments hc
  have htarget : c.outputTarget = target := congrArg Sketch.outputTarget hc
  have hmember {a : Argument} (ha : a ∈ c.arguments) : a.said ∈ args :=
    harguments ▸ List.mem_map_of_mem ha
  have hnone : c.arguments.filter Argument.inPropertyList = [] :=
    List.filter_eq_nil_iff.2 fun a ha => by
      have := (hargs _ (hmember ha)).1
      simpa [Argument.said] using this
  have hall : (c.arguments.filter fun a => !a.inPropertyList) = c.arguments :=
    List.filter_eq_self.2 fun a ha => by
      have := (hargs _ (hmember ha)).1
      simpa [Argument.said] using this
  have hhead : ({} : Format).head c = [] := by
    have haddress : c.address = [] := congrArg Sketch.address hc
    have hoperation : c.operation = none := congrArg Sketch.operation hc
    have hlist : c.hasPropertyList = false := congrArg Sketch.hasPropertyList hc
    have hheaders : c.headers = [] := congrArg Sketch.headers hc
    simp [Format.head, Format.operation, Format.propertyList, Format.headerList, haddress,
      hoperation, hlist, hheaders, hnone]
  have hformat : c.format = none := congrArg Sketch.format hc
  rw [toLine, hformat, Option.getD_none, Format.command, hall, hhead,
    Format.arguments_eq_texts fun a ha => (hargs _ (hmember ha)).2, harguments, ← htarget]
  rfl

theorem read_getD (strict : Bool) (entrance : Entrance) (base : List Node) (line : Option Text) :
    Command.read settings strict entrance base line =
      Command.read settings strict entrance base (some (line.getD [])) := by
  cases line <;> rfl

theorem exists_of_toOption {α : Type} {outcome : Except Fault Command} {view : Command → α}
    {a : α} (h : outcome.toOption.map view = some a) :
    ∃ d, outcome = .ok d ∧ view d = a := by
  cases outcome with
  | error fault => cases h
  | ok d => exact ⟨d, rfl, Option.some.inj h⟩

/-- Blanks are no arguments. -/
theorem read_arguments_of_blank {text : Text} (hblank : isBlankText text = true) :
    ∃ d, Command.read settings true .arguments [] (some text) = .ok d ∧
      Sketch.ofCommand d = {} :=
  exists_of_toOption (ofCommand_read_blank true hblank)

/-- What a line of arguments says, read strictly and without substitution. -/
theorem read_arguments_of_solid (hplain : settings.substitutes = false) {text : Text}
    (hsolid : isBlankText text = false) :
    (Command.read settings true .arguments [] (some text)).toOption.map Sketch.ofCommand =
      (Scene.read grammar Sketch.react settings.maxDepth .argumentList text {}).map Sketch.done :=
  ofCommand_read hplain hsolid

/-- What a command says that was read from a line of arguments. -/
theorem sayable_of_read (hplain : settings.substitutes = false) {line : Option Text}
    (h : Command.read settings true .arguments [] line = .ok c) :
    ∃ args target, Sayable settings.maxDepth [] args target ∧
      Sketch.ofCommand c = Sketch.saying args target := by
  rw [read_getD] at h
  cases hblank : isBlankText (line.getD []) with
  | true =>
    obtain ⟨d, hread, hd⟩ := read_arguments_of_blank hblank
    cases h.symm.trans hread
    exact ⟨[], none, .nothing, hd⟩
  | false =>
    have hread := read_arguments_of_solid hplain hblank
    rw [h] at hread
    obtain ⟨k, hk, hdone⟩ := Option.map_eq_some_iff.1 hread.symm
    obtain ⟨args, target, hsayable, rfl⟩ := CommandLine.sayable_of_read hk
    exact ⟨args, target, hsayable, hdone.symm⟩

theorem pairs_of_saying (hc : Sketch.ofCommand c = Sketch.saying args target) :
    c.pairs = args.map fun a => (a.name, a.value) := by
  rw [pairs_eq, hc]
  rfl

theorem target?_of_saying (hc : Sketch.ofCommand c = Sketch.saying args target) :
    c.target? = solidTarget target := by
  rw [target?, show c.outputTarget = target from congrArg Sketch.outputTarget hc]

theorem arguments_eq_nil_iff (hc : Sketch.ofCommand c = Sketch.saying args target) :
    c.arguments = [] ↔ args = [] := by
  rw [← show c.arguments.map Argument.said = args from congrArg Sketch.arguments hc,
    List.map_eq_nil_iff]

/-- What is sayable and not written as blanks is read again. -/
theorem argumentsSurvive_of_solid (hplain : settings.substitutes = false)
    (hsayable : Sayable settings.maxDepth [] args target)
    (hc : Sketch.ofCommand c = Sketch.saying args target)
    (hsolid : isBlankText c.toLine = false) : c.ArgumentsSurvive settings := by
  have hline : c.toLine = argumentLine args target :=
    toLine_of_arguments hc fun _ ha => hsayable.written rfl ha
  rw [hline] at hsolid
  have hread := read_arguments_of_solid hplain hsolid
  rw [read_argumentLine (Int.lt_trans (by decide) (hsayable.room rfl hsolid)) hsayable,
    ← hline] at hread
  obtain ⟨d, hd, hsketch : Sketch.ofCommand d = Sketch.saying args (solidTarget target)⟩ :=
    exists_of_toOption hread
  refine ⟨d, hd, ?_, ?_, ?_⟩
  · exact (pairs_of_saying hsketch).trans (pairs_of_saying hc).symm
  · rw [target?_of_saying hsketch, target?_of_saying hc, solidTarget_solidTarget]
  · rw [hline, ← argumentLine_solidTarget]
    exact toLine_of_arguments hsketch fun _ ha => hsayable.written rfl ha

/-- Of what is written as blanks, only nothing is read again. -/
theorem argumentsSurvive_iff_of_blank (hsayable : Sayable settings.maxDepth [] args target)
    (hc : Sketch.ofCommand c = Sketch.saying args target)
    (hblank : isBlankText c.toLine = true) : c.ArgumentsSurvive settings ↔ c.arguments = [] := by
  have hline : c.toLine = argumentLine args target :=
    toLine_of_arguments hc fun _ ha => hsayable.written rfl ha
  obtain ⟨d, hread, hd⟩ := read_arguments_of_blank hblank
  rw [arguments_eq_nil_iff hc]
  constructor
  · rintro ⟨e, he, hsame, -, -⟩
    cases hread.symm.trans he
    rw [pairs_of_saying hc, pairs_of_saying hd] at hsame
    exact List.map_eq_nil_iff.1 hsame.symm
  · rintro rfl
    -- an output target would be written, and `>` is not a blank
    have hempty : solidTarget target = none := by
      match target with
      | none => rfl
      | some [] => rfl
      | some (_ :: _) =>
        rw [hline] at hblank
        cases hblank
    refine ⟨d, hread, ?_, ?_, ?_⟩
    · exact (pairs_of_saying hd).trans (pairs_of_saying hc).symm
    · rw [target?_of_saying hd, target?_of_saying hc, hempty]
      rfl
    · rw [hline, ← argumentLine_solidTarget, hempty]
      exact toLine_of_arguments hd nofun

/-- Arguments and output target are read again unless they are written as blanks. -/
theorem argumentsSurvive_iff_of_read (hplain : settings.substitutes = false) {line : Option Text}
    (h : Command.read settings true .arguments [] line = .ok c) :
    c.ArgumentsSurvive settings ↔ (isBlankText c.toLine = true → c.arguments = []) := by
  obtain ⟨args, target, hsayable, hc⟩ := sayable_of_read hplain h
  cases hblank : isBlankText c.toLine with
  | true => simpa using argumentsSurvive_iff_of_blank hsayable hc hblank
  | false => exact iff_of_true (argumentsSurvive_of_solid hplain hsayable hc hblank) nofun

theorem argumentsSurvive_iff_of_read_of_value :
    ∃ c, Command.read {} true .arguments [] (some ['-', 'a', '=', ' ', '[', ' ', ']', '>']) =
        .ok c ∧
      c.pairs = [(some ['-', 'a'], some []), (none, some ['[', ' ', ']', '>'])] ∧
      c.toLine = ['-', 'a', '=', ' ', '[', ' ', ']', '>'] ∧ c.ArgumentsSurvive {} := by
  have hread : (Command.read {} true .arguments []
      (some ['-', 'a', '=', ' ', '[', ' ', ']', '>'])).toOption.map Sketch.ofCommand =
      some (Sketch.saying [⟨some ['-', 'a'], some [], false⟩,
        ⟨none, some ['[', ' ', ']', '>'], false⟩] none) := by
    decide +kernel
  obtain ⟨c, hc, hsketch⟩ := exists_of_toOption hread
  have hline : c.toLine = ['-', 'a', '=', ' ', '[', ' ', ']', '>'] :=
    toLine_of_arguments hsketch (by decide)
  refine ⟨c, hc, by rw [pairs_eq, hsketch]; rfl, hline, ?_⟩
  exact (argumentsSurvive_iff_of_read rfl hc).2 fun hblank => by
    rw [hline] at hblank
    cases hblank

/-- A no-break space is a value, since it separates nothing; where it is all that is written, the
line is blank and says nothing. -/
theorem not_argumentsSurvive_of_read_of_noBreakSpace :
    ∃ c, Command.read {} true .arguments [] (some ['\u00a0', ' ', '>']) = .ok c ∧
      c.pairs = [(none, some ['\u00a0'])] ∧ c.toLine = ['\u00a0'] ∧ ¬ c.ArgumentsSurvive {} := by
  have hread : (Command.read {} true .arguments []
      (some ['\u00a0', ' ', '>'])).toOption.map Sketch.ofCommand =
      some (Sketch.saying [⟨none, some ['\u00a0'], false⟩] (some [])) := by
    decide +kernel
  obtain ⟨c, hc, hsketch⟩ := exists_of_toOption hread
  have hline : c.toLine = ['\u00a0'] := toLine_of_arguments hsketch (by decide)
  have hpairs : c.pairs = [(none, some ['\u00a0'])] := by
    rw [pairs_eq, hsketch]
    rfl
  refine ⟨c, hc, hpairs, hline, ?_⟩
  rintro ⟨d, hd, hagain, -⟩
  obtain ⟨e, he, hempty⟩ := @read_arguments_of_blank {} ['\u00a0'] rfl
  rw [hline] at hd
  cases hd.symm.trans he
  rw [pairs_eq, hempty, hpairs] at hagain
  cases hagain

end
end Command
end CommandLine
