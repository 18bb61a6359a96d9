import Mathlib.Data.List.Forall2
import Retarget.Proofs.Orderly

/-!
# The frame of a rendering

What no orderly rendering touches: the target and the settings, the level of indentation and the
scopes around the innermost one. Only a fault ends a rendering early. Besides arithmetic on values
of the program there is one source of faults in the renderers: a level of indentation so deep that a
machine word or a text cannot hold its width.
-/

namespace Retarget.Render

variable {cx after : Context} {reserved : List String} {name chosen : String}

theorem run_chooseName_of_free (free : cx.symbols.collides reserved name = false) :
    (chooseName reserved name).run cx = .ok (name, cx) := by
  refine bind_eq_ok.mpr ⟨cx, cx, rfl, ?_⟩
  rw [if_neg (by simp [free])]
  rfl

theorem run_chooseName_of_collides
    (collides : cx.symbols.collides reserved name = true) :
    let chosen := cx.symbols.substituteFor reserved name
    (chooseName reserved name).run cx =
      .ok (chosen, cx.warn (renameMessage cx.target (name ∈ reserved) name chosen)) := by
  refine bind_eq_ok.mpr ⟨cx, cx, rfl, ?_⟩
  rw [if_pos collides]
  rfl

/-- A name is kept without a word, or gives way to its substitute with a warning. -/
theorem run_chooseName_eq_ok
    (ends : (chooseName reserved name).run cx = .ok (chosen, after)) :
    (cx.symbols.collides reserved name = false ∧ chosen = name ∧ after = cx) ∨
      (cx.symbols.collides reserved name = true ∧ chosen = cx.symbols.substituteFor reserved name ∧
        after = cx.warn (renameMessage cx.target (name ∈ reserved) name chosen)) := by
  cases collides : cx.symbols.collides reserved name with
  | false =>
    cases (run_chooseName_of_free collides).symm.trans ends
    exact .inl ⟨rfl, rfl, rfl⟩
  | true =>
    cases (run_chooseName_of_collides collides).symm.trans ends
    exact .inr ⟨rfl, rfl, rfl⟩

theorem run_declareFor_eq_ok {target : Target} {symbol : Symbol}
    (ends : (declareFor target symbol).run cx = .ok (chosen, after)) :
    ∃ between, (chooseName target.reserved symbol.sourceName).run cx = .ok (chosen, between) ∧
      after = between.declare { symbol with targetName := chosen } := by
  obtain ⟨_, between, choice, ends⟩ := bind_eq_ok.mp ends
  cases ends
  exact ⟨between, choice, rfl⟩

theorem mem_trail_declareFor {target : Target} {symbol : Symbol} {passed : Context}
    (member : passed ∈ (declareFor target symbol).trail cx) :
    (∃ message, passed = cx.warn message) ∨
      ∃ chosen, (declareFor target symbol).run cx = .ok (chosen, passed) := by
  obtain choosing | ⟨chosen, between, choice, member⟩ := mem_trail_bind.mp member
  · obtain absent | ⟨_, _, begun, choosing⟩ := mem_trail_bind.mp choosing
    · cases absent
    cases begun
    split at choosing
    · exact .inl ⟨_, List.mem_singleton.mp choosing⟩
    · cases choosing
  · right
    cases List.mem_singleton.mp member
    exact ⟨chosen, bind_eq_ok.mpr ⟨chosen, between, choice, rfl⟩⟩

theorem run_declareFresh_eq_ok {base : String} {type : ValueType}
    (ends : (declareFresh base type).run cx = .ok (chosen, after)) :
    chosen = cx.symbols.freshName base ∧ after = cx.declare (Symbol.scalar chosen type) := by
  cases ends
  exact ⟨rfl, rfl⟩

end Retarget.Render

/-! ## Frames -/

namespace Retarget

/-- A context that a rendering may leave behind when it began in `cx`. -/
structure Context.Frame (cx after : Context) : Prop where
  target : after.target = cx.target
  settings : after.settings = cx.settings
  indent : after.indent = cx.indent
  depth : after.symbols.depth = cx.symbols.depth
  outer : after.symbols.outer = cx.symbols.outer
  warnings : cx.warnings <+: after.warnings
  distinct : cx.warnings.Nodup → after.warnings.Nodup
  capabilities : ∀ capability, cx.capabilities.contains capability = true →
    after.capabilities.contains capability = true

theorem Context.symbols_warn (cx : Context) (message : String) :
    (cx.warn message).symbols = cx.symbols := by
  unfold Context.warn
  split <;> rfl

namespace Context.Frame

theorem refl (cx : Context) : cx.Frame cx :=
  ⟨rfl, rfl, rfl, rfl, rfl, List.prefix_rfl, id, fun _ used => used⟩

theorem trans {cx between after : Context} (first : cx.Frame between)
    (second : between.Frame after) : cx.Frame after where
  target := second.target.trans first.target
  settings := second.settings.trans first.settings
  indent := second.indent.trans first.indent
  depth := second.depth.trans first.depth
  outer := second.outer.trans first.outer
  warnings := first.warnings.trans second.warnings
  distinct := second.distinct ∘ first.distinct
  capabilities := fun _ used => second.capabilities _ (first.capabilities _ used)

theorem line_eq {cx after : Context} (frame : cx.Frame after) (text : String) :
    after.line text = cx.line text := by
  unfold Context.line
  rw [frame.indent, frame.settings]

theorem warn (cx : Context) (message : String) : cx.Frame (cx.warn message) := by
  by_cases given : message ∈ cx.warnings
  · rw [show cx.warn message = cx from if_pos given]
    exact refl cx
  · rw [show cx.warn message = { cx with warnings := cx.warnings ++ [message] } from if_neg given]
    refine { refl cx with warnings := List.prefix_append _ _, distinct := fun nodup => ?_ }
    refine List.nodup_append.mpr ⟨nodup, by simp, ?_⟩
    rintro old member _ added rfl
    rw [List.mem_singleton.mp added] at member
    exact given member

theorem require (cx : Context) (capability : Capability) : cx.Frame (cx.require capability) := by
  refine { refl cx with capabilities := fun other used => ?_ }
  cases capability <;> cases other <;>
    simp_all [Context.require, Caps.insert, Caps.contains]

theorem declare (cx : Context) (symbol : Symbol) : cx.Frame (cx.declare symbol) :=
  { refl cx with }

theorem indented {cx between : Context}
    (inside : Context.Frame { cx with indent := cx.indent + 1 } between) :
    cx.Frame { between with indent := between.indent - 1 } :=
  { inside with indent := by simp [inside.indent] }

theorem symbols_popScope {cx between : Context} (inside : cx.pushScope.Frame between) :
    between.popScope.symbols = cx.symbols := by
  have outer : between.symbols.outer = cx.symbols.inner :: cx.symbols.outer := inside.outer
  simp only [Context.popScope, SymbolTable.pop, outer]

theorem inScope {cx between : Context} (inside : cx.pushScope.Frame between) :
    cx.Frame between.popScope :=
  { inside with
    depth := congrArg SymbolTable.depth (symbols_popScope inside)
    outer := congrArg SymbolTable.outer (symbols_popScope inside) }

end Context.Frame

namespace Render.Steps

variable {α : Type} {target : Target} {room : Nat} {extent : Extent} {excused : α → Prop}
  {rendering : Render α} {cx after : Context} {value : α}

theorem frame (steps : rendering.Steps True target room extent excused)
    (ends : rendering.run cx = .ok (value, after)) : cx.Frame after := by
  induction steps generalizing cx after with
  | done result =>
    cases ends
    exact .refl cx
  | halt fault => cases ends
  | read _ ih => exact ih cx (.inl trivial) ends
  | warn message =>
    cases ends
    exact .warn cx message
  | require capability =>
    cases ends
    exact .require cx capability
  | declareFor symbol =>
    obtain ⟨between, choice, rfl⟩ := run_declareFor_eq_ok ends
    -- Choosing the name gives a warning at most.
    refine .trans ?_ (.declare between _)
    obtain ⟨_, _, rfl⟩ | ⟨_, _, rfl⟩ := run_chooseName_eq_ok choice
    · exact .refl _
    · exact .warn cx _
  | declareFresh base type free =>
    obtain ⟨_, rfl⟩ := run_declareFresh_eq_ok ends
    exact .declare cx _
  | indented _ _ ih =>
    obtain ⟨between, _, inside, rfl⟩ := run_indented_eq_ok ends
    exact (ih inside).indented
  | inScope _ ih =>
    obtain ⟨between, inside, rfl⟩ := run_inScope_eq_ok ends
    exact (ih inside).inScope
  | giveUp _ _ ih => exact ih ends
  | bind _ _ _ firstIh restIh =>
    obtain ⟨middle, between, first, rest⟩ := bind_eq_ok.mp ends
    exact (firstIh first).trans (restIh middle rest)

theorem symbols_eq (steps : rendering.Steps True target room .contained excused)
    (ends : rendering.run cx = .ok (value, after)) : after.symbols = cx.symbols := by
  -- The extent is an index of the steps, so that it is contained is kept as an equation.
  generalize contained : Extent.contained = start at steps
  induction steps generalizing cx after with
  | done result =>
    cases ends
    rfl
  | halt fault => cases ends
  | read _ ih => exact ih cx (.inl trivial) ends contained
  | warn message =>
    cases ends
    exact Context.symbols_warn cx message
  | require capability =>
    cases ends
    rfl
  | declareFor symbol => cases contained
  | declareFresh base type free => cases contained
  | indented _ _ ih =>
    obtain ⟨between, _, inside, rfl⟩ := run_indented_eq_ok ends
    have unchanged := ih inside contained
    exact unchanged
  | inScope steps _ =>
    -- The body may declare names, but only in the scope that is left after it.
    obtain ⟨between, inside, rfl⟩ := run_inScope_eq_ok ends
    exact (steps.frame inside).symbols_popScope
  | giveUp _ _ ih => exact ih ends contained
  | bind _ _ _ firstIh restIh =>
    obtain ⟨middle, between, first, rest⟩ := bind_eq_ok.mp ends
    exact (restIh middle rest contained).trans (firstIh first contained)

end Render.Steps

/-! ## Endings -/

namespace Render

variable {α β : Type} {room : Nat} {holds : α → Prop} {later : β → Prop}

def Ends (room : Nat) (rendering : Render α) (holds : α → Prop) : Prop :=
  ∀ cx, cx.HasRoom room → ∃ value after, rendering.run cx = .ok (value, after) ∧
    after.indent = cx.indent ∧ after.settings = cx.settings ∧ holds value

namespace Ends

theorem done {value : α} (fact : holds value) : Ends room (.done value) holds :=
  fun cx _ => ⟨value, cx, rfl, rfl, rfl, fact⟩

theorem bind {first : Render α} {rest : α → Render β} (begun : Ends room first holds)
    (next : ∀ value, holds value → Ends room (rest value) later) :
    Ends room (first >>= rest) later := by
  intro cx fits
  obtain ⟨middle, between, firstEnds, indent, settings, fact⟩ := begun cx fits
  obtain ⟨value, after, ends, indentAfter, settingsAfter, result⟩ :=
    next middle fact between (fits.of_eq indent settings)
  refine ⟨value, after, bind_eq_ok.mpr ⟨middle, between, firstEnds, ends⟩, ?_, ?_, result⟩
  · exact indentAfter.trans indent
  · exact settingsAfter.trans settings

theorem get : Ends room (get : Render Context) fun _ => True :=
  fun cx _ => ⟨cx, cx, rfl, rfl, rfl, trivial⟩

theorem symbols : Ends room Render.symbols fun _ => True :=
  get.bind fun _ _ => .done trivial

theorem settings : Ends room Render.settings fun _ => True :=
  get.bind fun _ _ => .done trivial

theorem change {f : Context → Context} (indent : ∀ cx, (f cx).indent = cx.indent)
    (settings : ∀ cx, (f cx).settings = cx.settings) : Ends room (Render.change f) fun _ => True :=
  fun cx _ => ⟨(), f cx, rfl, indent cx, settings cx, trivial⟩

theorem warn (message : String) : Ends room (Render.warn message) fun _ => True :=
  change (fun cx => (Context.Frame.warn cx message).indent)
    fun cx => (Context.Frame.warn cx message).settings

theorem require (capability : Capability) : Ends room (Render.require capability) fun _ => True :=
  change (fun _ => rfl) fun _ => rfl

theorem declare (symbol : Symbol) : Ends room (Render.declare symbol) fun _ => True :=
  change (fun _ => rfl) fun _ => rfl

theorem indented {body : Render α} (ends : Ends room body holds) :
    Ends (room + 1) (Render.indented body) holds := by
  intro cx fits
  have counted : cx.indent + 1 < wordCount := by
    have := fits.1
    omega
  have inside : { cx with indent := cx.indent + 1 : Context }.HasRoom room := by
    have shift : cx.indent + 1 + room = cx.indent + (room + 1) := by omega
    unfold Context.HasRoom
    rw [shift]
    exact fits
  obtain ⟨value, between, run, indent, settings, fact⟩ := ends _ inside
  refine ⟨value, { between with indent := between.indent - 1 }, ?_, ?_, settings, fact⟩
  · rw [run_indented, if_pos counted, run]
    rfl
  simp only [indent, Nat.add_sub_cancel]

theorem inScope {body : Render α} (ends : Ends room body holds) :
    Ends room (Render.inScope body) holds := by
  have opened : Ends room (Render.change (·.pushScope)) fun _ => True :=
    change (fun _ => rfl) fun _ => rfl
  have left : Ends room (Render.change (·.popScope)) fun _ => True :=
    change (fun _ => rfl) fun _ => rfl
  exact opened.bind fun _ _ => ends.bind fun _ fact => left.bind fun _ _ => .done fact

theorem concatMap {f : α → Render (List String)} {xs : List α}
    (ends : ∀ x ∈ xs, Ends room (f x) fun _ => True) :
    Ends room (Render.concatMap f xs) fun _ => True := by
  induction xs with
  | nil => exact .done trivial
  | cons x xs ih =>
    refine (ends x List.mem_cons_self).bind fun _ _ => ?_
    exact (ih fun y member => ends y (List.mem_cons_of_mem x member)).bind fun _ _ =>
      .done trivial

end Ends

abbrev Safe (room : Nat) (rendering : Render α) : Prop :=
  rendering.Ends room fun _ => True

/-- A rendering that may have no fault comes to an end wherever there is room for it. -/
theorem Steps.safe {target : Target} {extent : Extent} {excused : α → Prop} {rendering : Render α}
    (steps : rendering.Steps False target room extent excused) : rendering.Safe room := by
  induction steps with
  | done value => exact .done trivial
  | halt fault allowed => exact allowed.elim
  | read _ ih => exact fun cx fits => ih cx (.inr fits) cx fits
  | warn message => exact .warn message
  | require capability => exact .require capability
  | @declareFor room _ symbol =>
    have chosen : Ends room (chooseName target.reserved symbol.sourceName) fun _ => True := by
      refine Ends.get.bind fun cx _ => ?_
      split
      · exact (Ends.warn _).bind fun _ _ => .done trivial
      · exact .done trivial
    exact chosen.bind fun _ _ => (Ends.declare _).bind fun _ _ => .done trivial
  | declareFresh base type _ =>
    exact Ends.symbols.bind fun _ _ => (Ends.declare _).bind fun _ _ => .done trivial
  | @indented _ room _ _ _ fits _ ih =>
    obtain ⟨inner, rfl⟩ := Nat.exists_eq_add_of_le' (fits.resolve_left id)
    exact ih.indented
  | inScope _ ih => exact ih.inScope
  | giveUp _ _ ih => exact ih
  | bind _ _ _ firstIh restIh => exact firstIh.bind fun value _ => restIh value

end Render

def Carries {ε α : Type} (result : Except ε α) (holds : α → Prop) : Prop :=
  ∀ value, result = .ok value → holds value

namespace Carries

variable {ε α β : Type} {holds : α → Prop} {later : β → Prop}

theorem ok {value : α} (fact : holds value) : Carries (.ok value : Except ε α) holds :=
  fun _ same => Except.ok.inj same ▸ fact

theorem error (error : ε) : Carries (.error error : Except ε α) holds :=
  nofun

theorem bind {first : Except ε α} {rest : α → Except ε β} (begun : Carries first holds)
    (next : ∀ value, holds value → Carries (rest value) later) :
    Carries (first >>= rest) later := by
  cases first with
  | error error => exact nofun
  | ok value => exact next value (begun value rfl)

theorem trivial (result : Except ε α) : Carries result fun _ => True :=
  fun _ _ => True.intro

end Carries

end Retarget

namespace Retarget.Attempt

open Trial (bind_eq_ok)

variable {α β : Type} {table : SymbolTable} {holds : α → Prop} {later : β → Prop}

def Gives (table : SymbolTable) (attempt : Attempt α) (holds : α → Prop) : Prop :=
  ∀ cx, cx.symbols = table → ∃ value after,
    attempt.run.run cx = .ok (.ok value, after) ∧ after.symbols = table ∧ holds value

def Yields (table : SymbolTable) (attempt : Attempt α) (holds : α → Prop) : Prop :=
  ∀ cx value after, cx.symbols = table → attempt.run.run cx = .ok (.ok value, after) →
    after.symbols = table ∧ holds value

namespace Gives

theorem pure {value : α} (fact : holds value) : Gives table (pure value) holds := by
  intro cx same
  exact ⟨value, cx, rfl, same, fact⟩

theorem bind {first : Attempt α} {rest : α → Attempt β} (begun : Gives table first holds)
    (next : ∀ value, holds value → Gives table (rest value) later) :
    Gives table (first >>= rest) later := by
  intro cx same
  obtain ⟨middle, between, firstEnds, kept, fact⟩ := begun cx same
  obtain ⟨value, after, ends, keptAfter, result⟩ := next middle fact between kept
  exact ⟨value, after, bind_eq_ok.mpr ⟨middle, between, firstEnds, ends⟩, keptAfter, result⟩

theorem mono {attempt : Attempt α} {wider : α → Prop} (gives : Gives table attempt holds)
    (weaker : ∀ value, holds value → wider value) : Gives table attempt wider := by
  intro cx same
  obtain ⟨value, after, ends, kept, fact⟩ := gives cx same
  exact ⟨value, after, ends, kept, weaker value fact⟩

theorem symbols {rest : SymbolTable → Attempt β} (next : Gives table (rest table) later) :
    Gives table (liftM Render.symbols >>= rest) later := by
  intro cx same
  obtain ⟨value, after, ends, kept, fact⟩ := next cx same
  refine ⟨value, after, ?_, kept, fact⟩
  exact bind_eq_ok.mpr ⟨cx.symbols, cx, rfl, same ▸ ends⟩

theorem warn (message : String) : Gives table (liftM (Render.warn message)) fun _ => True := by
  intro cx same
  exact ⟨(), cx.warn message, rfl, (Context.symbols_warn cx message).trans same, trivial⟩

theorem mapM {f : α → Attempt β} {rel : α → β → Prop} {xs : List α}
    (gives : ∀ x ∈ xs, Gives table (f x) (rel x)) :
    Gives table (xs.mapM f) (List.Forall₂ rel xs) := by
  induction xs with
  | nil => exact pure .nil
  | cons x xs ih =>
    obtain ⟨first, others⟩ := List.forall_mem_cons.mp gives
    rw [List.mapM_cons]
    exact first.bind fun _ fact => (ih others).bind fun _ related => pure (.cons fact related)

end Gives

namespace Yields

theorem pure {value : α} (fact : holds value) : Yields table (pure value) holds := by
  intro cx result after same ends
  cases ends
  exact ⟨same, fact⟩

theorem bind {first : Attempt α} {rest : α → Attempt β} (begun : Yields table first holds)
    (next : ∀ value, holds value → Yields table (rest value) later) :
    Yields table (first >>= rest) later := by
  intro cx value after same ends
  obtain ⟨middle, between, firstEnds, restEnds⟩ := bind_eq_ok.mp ends
  obtain ⟨kept, fact⟩ := begun cx middle between same firstEnds
  exact next middle fact between value after kept restEnds

theorem mono {attempt : Attempt α} {wider : α → Prop} (yields : Yields table attempt holds)
    (weaker : ∀ value, holds value → wider value) : Yields table attempt wider := by
  intro cx value after same ends
  obtain ⟨kept, fact⟩ := yields cx value after same ends
  exact ⟨kept, weaker value fact⟩

theorem and {attempt : Attempt α} {other : α → Prop} (first : Yields table attempt holds)
    (second : Yields table attempt other) :
    Yields table attempt fun value => holds value ∧ other value := by
  intro cx value after same ends
  obtain ⟨kept, fact⟩ := first cx value after same ends
  exact ⟨kept, fact, (second cx value after same ends).2⟩

theorem symbols {rest : SymbolTable → Attempt β} (next : Yields table (rest table) later) :
    Yields table (liftM Render.symbols >>= rest) later := by
  intro cx value after same ends
  obtain ⟨_, _, read, ends⟩ := bind_eq_ok.mp ends
  cases read
  exact next cx value after same (same ▸ ends)

theorem warn (message : String) : Yields table (liftM (Render.warn message)) fun _ => True := by
  intro cx value after same ends
  cases ends
  exact ⟨(Context.symbols_warn cx message).trans same, trivial⟩

theorem require (capability : Capability) :
    Yields table (liftM (Render.require capability)) fun _ => True := by
  intro cx value after same ends
  cases ends
  exact ⟨same, trivial⟩

theorem lift {rendering : Render α}
    (runs : ∀ cx value after, rendering.run cx = .ok (value, after) →
      after.symbols = cx.symbols ∧ holds value) : Yields table (liftM rendering) holds := by
  intro cx value after same ends
  obtain ⟨middle, between, begun, lifted⟩ := Render.bind_eq_ok.mp ends
  cases lifted
  obtain ⟨kept, fact⟩ := runs cx value after begun
  exact ⟨kept.trans same, fact⟩

theorem ofExcept {result : Except Fault α} (fact : ∀ value, result = .ok value → holds value) :
    Yields table (Attempt.ofExcept result) holds := by
  refine lift fun cx value after ends => ?_
  cases result with
  | error fault => cases ends
  | ok value =>
    cases ends
    exact ⟨rfl, fact value rfl⟩

theorem refuse (refusal : Refusal) : Yields table (Attempt.refuse refusal) holds := by
  intro cx value after same ends
  cases ends

end Yields

end Retarget.Attempt
