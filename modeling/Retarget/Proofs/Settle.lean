import Retarget.Proofs.Frame
import Retarget.Proofs.Text

/-!
# Settled statements

Settling a statement is orderly whenever the attempt at it is: the line made from its bare text
declares at most one chosen name, and giving up always leaves a warning that tells so.
-/

namespace Retarget

variable {may wider : Prop} {α β : Type} {target : Target} {room : Nat} {extent : Extent}
  {cx other after : Context}

namespace Render

/-- A rendering that only reads the symbol table, warns and takes headers into use; it has a fault
only where there may be one. -/
inductive Consulting (may : Prop) : {α : Type} → Render α → Prop where
  | done {α : Type} (value : α) : Consulting may (.done value)
  | halt {α : Type} (fault : Fault) (allowed : may) : Consulting may (.halt fault : Render α)
  | symbols : Consulting may Render.symbols
  | warn (message : String) : Consulting may (Render.warn message)
  | require (capability : Capability) : Consulting may (Render.require capability)
  | bind {α β : Type} {first : Render α} {rest : α → Render β} (begun : Consulting may first)
      (next : ∀ value, Consulting may (rest value)) : Consulting may (first >>= rest)

namespace Consulting

variable {rendering : Render α}

theorem ofExcept {result : Except Fault α} (allowed : may ∨ ∃ value, result = .ok value) :
    Consulting may (Render.ofExcept result) := by
  cases result with
  | ok value => exact .done value
  | error fault => exact .halt fault (allowed.resolve_right nofun)

theorem steady (consulting : rendering.Consulting may) (weaker : may → wider) :
    rendering.Steady wider target room extent := by
  induction consulting with
  | done value => exact .done value
  | halt fault allowed => exact .halt fault (weaker allowed)
  | symbols => exact .symbols
  | warn message => exact .warn message
  | require capability => exact .require capability
  | bind _ _ firstIh restIh => exact firstIh.bind restIh

theorem symbols_eq {value : α} (consulting : rendering.Consulting may)
    (ends : rendering.run cx = .ok (value, after)) : after.symbols = cx.symbols := by
  have contained : rendering.Orderly .c .contained := consulting.steady fun _ => trivial
  exact Steps.symbols_eq contained ends

theorem run_of_symbols {value : α} (consulting : rendering.Consulting may)
    (same : other.symbols = cx.symbols) (ends : rendering.run cx = .ok (value, after)) :
    ∃ final, rendering.run other = .ok (value, final) := by
  induction consulting generalizing cx other after with
  | done result =>
    cases ends
    exact ⟨other, rfl⟩
  | halt fault _ => cases ends
  | symbols =>
    cases ends
    rw [← same]
    exact ⟨other, rfl⟩
  | warn message =>
    cases ends
    exact ⟨other.warn message, rfl⟩
  | require capability =>
    cases ends
    exact ⟨other.require capability, rfl⟩
  | bind begun next firstIh restIh =>
    obtain ⟨middle, between, first, rest⟩ := bind_eq_ok.mp ends
    obtain ⟨between', firstToo⟩ := firstIh same first
    -- Neither first part has changed the symbols, so that the second parts agree as well.
    have kept := begun.symbols_eq first
    have keptToo := begun.symbols_eq firstToo
    obtain ⟨final, restToo⟩ := restIh middle (keptToo.trans (same.trans kept.symm)) rest
    exact ⟨final, bind_eq_ok.mpr ⟨middle, between', firstToo, restToo⟩⟩

end Consulting

end Render

namespace Attempt

/-- An attempt that is put together from consulting renderings and refusals. -/
inductive Consulting (may : Prop) : {α : Type} → Attempt α → Prop where
  | refuse {α : Type} (refusal : Refusal) : Consulting may (Attempt.refuse refusal : Attempt α)
  | lift {α : Type} {rendering : Render α} (consulting : rendering.Consulting may) :
      Consulting may (liftM rendering)
  | bind {α β : Type} {first : Attempt α} {rest : α → Attempt β} (begun : Consulting may first)
      (next : ∀ value, Consulting may (rest value)) : Consulting may (first >>= rest)

namespace Consulting

variable {attempt : Attempt α}

theorem pure (value : α) : Consulting may (pure value) :=
  lift (.done value)

theorem ofExcept {result : Except Fault α} (allowed : may ∨ ∃ value, result = .ok value) :
    Consulting may (Attempt.ofExcept result) :=
  lift (.ofExcept allowed)

theorem afterExcept {result : Except Fault α} {rest : α → Attempt β}
    (allowed : may ∨ ∃ value, result = .ok value)
    (next : ∀ value, result = .ok value → Consulting may (rest value)) :
    Consulting may (Attempt.ofExcept result >>= rest) := by
  cases result with
  | ok value => exact next value rfl
  | error fault => exact lift (.halt fault (allowed.resolve_right nofun))

theorem symbols : Consulting may (liftM Render.symbols) :=
  lift .symbols

theorem warn (message : String) : Consulting may (liftM (Render.warn message)) :=
  lift (.warn message)

theorem require (capability : Capability) : Consulting may (liftM (Render.require capability)) :=
  lift (.require capability)

theorem mapM {f : α → Attempt β} {xs : List α} (consulting : ∀ x ∈ xs, Consulting may (f x)) :
    Consulting may (xs.mapM f) := by
  induction xs with
  | nil => exact pure []
  | cons x xs ih =>
    obtain ⟨first, others⟩ := List.forall_mem_cons.mp consulting
    rw [List.mapM_cons]
    exact first.bind fun _ => (ih others).bind fun _ => pure _

theorem steady (consulting : attempt.Consulting may) (weaker : may → wider) :
    attempt.Steady wider target room extent := by
  induction consulting with
  | refuse refusal => exact .refuse refusal
  | lift consulting => exact .lift (consulting.steady weaker)
  | bind _ _ firstIh restIh => exact firstIh.bind restIh

theorem orderly (consulting : attempt.Consulting may) : attempt.Orderly target extent :=
  consulting.steady fun _ => trivial

theorem symbols_eq {result : Except Refusal α} (consulting : attempt.Consulting may)
    (ends : attempt.run.run cx = .ok (result, after)) : after.symbols = cx.symbols := by
  have contained : attempt.Orderly .c .contained := consulting.orderly
  exact Render.Steps.symbols_eq contained ends

theorem run_of_symbols {result : Except Refusal α} (consulting : attempt.Consulting may)
    (same : other.symbols = cx.symbols) (ends : attempt.run.run cx = .ok (result, after)) :
    ∃ final, attempt.run.run other = .ok (result, final) := by
  induction consulting generalizing cx other after with
  | refuse refusal =>
    cases ends
    exact ⟨other, rfl⟩
  | lift consulting =>
    obtain ⟨value, between, first, rest⟩ := Render.bind_eq_ok.mp ends
    cases rest
    obtain ⟨final, firstToo⟩ := consulting.run_of_symbols same first
    exact ⟨final, Render.bind_eq_ok.mpr ⟨value, final, firstToo, rfl⟩⟩
  | bind begun next firstIh restIh =>
    obtain ⟨middle, between, first, rest⟩ := Render.bind_eq_ok.mp ends
    obtain ⟨between', firstToo⟩ := firstIh same first
    have kept := begun.symbols_eq first
    have keptToo := begun.symbols_eq firstToo
    cases middle with
    | error refusal =>
      cases rest
      exact ⟨between', Render.bind_eq_ok.mpr ⟨_, between', firstToo, rfl⟩⟩
    | ok middle =>
      obtain ⟨final, restToo⟩ := restIh middle (keptToo.trans (same.trans kept.symm)) rest
      exact ⟨final, Render.bind_eq_ok.mpr ⟨.ok middle, between', firstToo, restToo⟩⟩

end Consulting

end Attempt

/-! ## Settling -/

namespace C

theorem typeName_consulting (type : ValueType) : (typeName type).Consulting may := by
  cases type with
  | boolean => exact (Attempt.Consulting.require _).bind fun _ => .pure _
  | unknown => exact .refuse _
  | byte | short | int | long | float | double | char | string => exact .pure _

theorem typeName_steady (type : ValueType) : (typeName type).Steady may target room extent :=
  (typeName_consulting type).steady id

end C

namespace Render

/-- A rendering made of such steps in which any result excuses giving up. -/
def Loose {α : Type} (may : Prop) (target : Target) (room : Nat) (rendering : Render α) : Prop :=
  Steps may target room .declaring (fun _ => True) rendering

theorem Loose.done {α : Type} (value : α) : Loose may target room (.done value) :=
  Steps.done value

theorem Loose.bind {α β : Type} {excused : α → Prop} {first : Render α} {rest : α → Render β}
    (firstSteps : first.Steps may target room .declaring excused)
    (restLoose : ∀ value, Loose may target room (rest value)) :
    Loose may target room (first >>= rest) :=
  Steps.bind firstSteps restLoose fun _ _ _ _ _ _ => .inl trivial

theorem Loose.giveUp {α : Type} {rest : Render α} (loose : Loose may target room rest)
    (told : Told (fun _ => False) rest) : Steady may target room .declaring (.giveUp rest) :=
  Steps.giveUp loose told

end Render

namespace Degraded

open Render

theorem cDeclaration_loose (type : ValueType) (name : String) (value : Option String) :
    (cDeclaration type name value).Loose may .c room := by
  refine Loose.bind Steady.symbols fun table => ?_
  split
  · exact .done none
  · refine .bind (C.typeName_steady type) fun written => ?_
    cases written with
    | error refusal => exact .done none
    | ok typeName =>
      dsimp only
      split
      · exact .done none
      · split
        · refine Loose.bind (Steady.require _) fun _ => ?_
          exact Loose.bind (Steady.declareFor _) fun _ => .done _
        · exact Loose.bind (Steady.declareFor _) fun _ => .done _

theorem cLine_loose (text : String) : (cLine text).Loose may .c room := by
  unfold cLine
  split
  · exact .done none
  · exact cDeclaration_loose _ _ _
  · exact .done _
  · refine Loose.bind Steady.symbols fun table => ?_
    split <;> exact .done _

theorem pythonLine_loose (text : String) : (pythonLine text).Loose may .python room := by
  unfold pythonLine
  split
  · exact .done none
  · refine Loose.bind Steady.symbols fun table => ?_
    dsimp only
    split
    · exact .done none
    · exact Loose.bind (Steady.declareFor _) fun _ => .done _
  · exact .done _
  · exact Loose.bind Steady.symbols fun table => .done _

theorem line_loose (target : Target) (text : String) :
    (line target text).Loose may target room := by
  cases target with
  | c => exact cLine_loose text
  | python => exact pythonLine_loose text

end Degraded

namespace Render

theorem degradedLine_loose (source : Option String) (stmt : Stmt) :
    (degradedLine target source stmt).Loose may target room := by
  unfold degradedLine
  split
  · exact Degraded.line_loose target _
  · exact .done none

theorem mem_warnings_warn (cx : Context) (message : String) :
    message ∈ (cx.warn message).warnings := by
  unfold Context.warn
  split
  · assumption
  · simp

theorem run_oneLine_eq_ok {text : String} {cx after : Context} {lines : List String}
    (ends : (oneLine text).run cx = .ok (lines, after)) :
    ∃ line, cx.line text = .ok line ∧ lines = [line] ∧ after = cx := by
  simp only [oneLine, line, run_bind, run_get, run_ofExcept, Except.bind] at ends
  cases written : cx.line text with
  | error fault => simp [written, Except.map] at ends
  | ok line =>
    simp only [written, Except.map, run_pure, Except.ok.injEq, Prod.mk.injEq] at ends
    exact ⟨line, rfl, ends.1.symm, ends.2.symm⟩

theorem run_warn_oneLine_eq_ok {message text : String} {cx after : Context} {lines : List String}
    (ends : (warn message >>= fun _ => oneLine text).run cx = .ok (lines, after)) :
    ∃ line, (cx.warn message).line text = .ok line ∧ lines = [line] ∧ after = cx.warn message := by
  obtain ⟨_, _, warned, ends⟩ := bind_eq_ok.mp ends
  cases warned
  exact run_oneLine_eq_ok ends

theorem degrade_told (source : Option String) (stmt : Stmt) (reason : String)
    (excused : List String → Prop) : Told excused (degrade target source stmt reason) := by
  intro cx lines after ends
  obtain ⟨degraded, between, _, ends⟩ := bind_eq_ok.mp ends
  right
  cases degraded with
  | some text =>
    obtain ⟨_, _, _, rfl⟩ := run_warn_oneLine_eq_ok ends
    refine ⟨_, mem_warnings_warn between _, ?_⟩
    simp only [isNotice, Text.contains_append, Bool.or_true]
  | none =>
    obtain ⟨_, _, _, rfl⟩ := run_warn_oneLine_eq_ok ends
    refine ⟨_, mem_warnings_warn between _, ?_⟩
    simp only [isNotice, Text.endsIn_append, Bool.true_or]

theorem degrade_steady (source : Option String) (stmt : Stmt) (reason : String) :
    (degrade target source stmt reason).Steady may target room .declaring := by
  have written (message text : String) :
      Loose may target room (warn message >>= fun _ => oneLine text) :=
    .bind (Steady.warn message) fun _ => .bind (Steady.line text) fun _ => .done _
  refine Loose.giveUp ?_ (degrade_told source stmt reason _)
  refine .bind (degradedLine_loose source stmt) fun degraded => ?_
  cases degraded with
  | some text => exact written _ text
  | none => exact written _ _

theorem settle_steady (source : Option String) (stmt : Stmt) {attempt : Attempt (List String)}
    (steady : attempt.Steady may target room extent) :
    (settle target source stmt attempt).Steady may target room .declaring := by
  refine Steps.bind steady.declaring ?_ ?_
  · intro result
    cases result with
    | error refusal => exact degrade_steady source stmt _
    | ok lines =>
      refine Steady.settings.bind fun settings => ?_
      split
      · exact .done lines
      · exact degrade_steady source stmt _
  · -- A refusal leads to a degraded line or a placeholder, and a warning tells of either.
    rintro _ ⟨refusal, rfl⟩
    exact degrade_told source stmt _ _

end Render

end Retarget

/-! ## Atomic attempts -/

namespace Retarget

/-- How far the declarations of a statement reach: only a declaration, or a sequence that may hold
one, declares around itself. -/
def Stmt.extent : Stmt → Extent
  | .declare .. | .declareArray .. | .sequence _ => .declaring
  | _ => .contained

namespace SymbolTable

def chosenName (table : SymbolTable) (reserved : List String) (name : String) : String :=
  if table.collides reserved name then table.substituteFor reserved name else name

def redeclare (table : SymbolTable) (target : Target) (symbol : Symbol) : SymbolTable :=
  table.declare
    { symbol with targetName := table.chosenName target.reserved symbol.sourceName }

end SymbolTable

theorem Render.symbols_of_declareFor {target : Target} {symbol : Symbol} {chosen : String}
    {cx after : Context} (ends : (Render.declareFor target symbol).run cx = .ok (chosen, after)) :
    after.symbols = cx.symbols.redeclare target symbol := by
  obtain ⟨between, choice, rfl⟩ := run_declareFor_eq_ok ends
  unfold SymbolTable.redeclare SymbolTable.chosenName
  obtain ⟨kept, rfl, rfl⟩ | ⟨collides, rfl, rfl⟩ := run_chooseName_eq_ok choice
  · simp only [kept, Bool.false_eq_true, ↓reduceIte]
    rfl
  · simp only [collides, ↓reduceIte]
    exact congrArg (SymbolTable.declare · _) (Context.symbols_warn cx _)

namespace Attempt

variable {α β : Type} {target : Target} {extent : Extent} {first : Attempt α}
  {rest : α → Attempt β}

theorem refused_of_bind {cx after : Context}
    {refusal : Refusal} (refused : (first >>= rest).run.run cx = .ok (.error refusal, after)) :
    first.run.run cx = .ok (.error refusal, after) ∨
      ∃ value between, first.run.run cx = .ok (.ok value, between) ∧
        (rest value).run.run between = .ok (.error refusal, after) := by
  obtain ⟨result, between, begun, ends⟩ := Render.bind_eq_ok.mp refused
  cases result with
  | error reason =>
    cases ends
    exact .inl begun
  | ok value => exact .inr ⟨value, between, begun, ends⟩

theorem not_refused_of_lift {rendering : Render α} {cx after : Context} {refusal : Refusal} :
    (liftM rendering : Attempt α).run.run cx ≠ .ok (.error refusal, after) := by
  intro refused
  obtain ⟨_, _, _, ends⟩ := Render.bind_eq_ok.mp refused
  cases ends

/-- An orderly attempt that is never refused. -/
structure Certain (target : Target) (extent : Extent) (attempt : Attempt α) : Prop where
  orderly : attempt.Orderly target extent
  accepted : ∀ cx refusal after, attempt.run.run cx ≠ .ok (.error refusal, after)

namespace Certain

theorem pure (value : α) : Certain target extent (pure value) where
  orderly := .pure value
  accepted := by
    intro cx refusal after refused
    cases refused

theorem lift {rendering : Render α} (orderly : rendering.Orderly target extent) :
    Certain target extent (liftM rendering) where
  orderly := .lift orderly
  accepted := fun _ _ _ => not_refused_of_lift

theorem line (text : String) : Certain target extent (liftM (Render.line text)) :=
  lift (.line text)

theorem oneLine (text : String) : Certain target extent (liftM (Render.oneLine text)) :=
  lift (.oneLine text)

theorem bind
    (firstCertain : Certain target extent first)
    (restCertain : ∀ value, Certain target extent (rest value)) :
    Certain target extent (first >>= rest) where
  orderly := firstCertain.orderly.bind fun value => (restCertain value).orderly
  accepted := by
    intro cx refusal after refused
    obtain refused | ⟨value, between, _, refused⟩ := refused_of_bind refused
    · exact firstCertain.accepted _ _ _ refused
    · exact (restCertain value).accepted _ _ _ refused

end Certain

/-- An orderly attempt that leaves the symbol table as it was when it is refused. -/
structure Atomic (target : Target) (attempt : Attempt α) : Prop where
  orderly : attempt.Orderly target .declaring
  unchanged : ∀ cx refusal after, attempt.run.run cx = .ok (.error refusal, after) →
    after.symbols = cx.symbols

theorem Certain.atomic {attempt : Attempt α} (certain : Certain target extent attempt) :
    Atomic target attempt where
  orderly := certain.orderly.declaring
  unchanged := fun _ _ _ refused => (certain.accepted _ _ _ refused).elim

theorem Atomic.ofContained {attempt : Attempt α} (contained : attempt.Orderly target .contained) :
    Atomic target attempt where
  orderly := contained.declaring
  unchanged := fun _ _ _ refused => Render.Steps.symbols_eq contained refused

/-- An atomic attempt that declares one symbol for the target and nothing else, unless it is
refused. -/
structure Declares (target : Target) (holds : Symbol → Prop) (attempt : Attempt α) : Prop
    extends Atomic target attempt where
  declared : ∀ cx value after, attempt.run.run cx = .ok (.ok value, after) →
    ∃ symbol, holds symbol ∧ after.symbols = cx.symbols.redeclare target symbol

namespace Declares

variable {holds : Symbol → Prop}

theorem declareFor {symbol : Symbol} (fits : holds symbol) :
    Declares target holds (liftM (Render.declareFor target symbol)) where
  toAtomic := Certain.atomic (.lift (.declareFor symbol))
  declared := by
    intro cx value after ends
    obtain ⟨chosen, between, declares, lifted⟩ := Render.bind_eq_ok.mp ends
    cases lifted
    exact ⟨symbol, fits, Render.symbols_of_declareFor declares⟩

theorem refuse (refusal : Refusal) : Declares target holds (refuse refusal : Attempt α) where
  toAtomic := .ofContained (.refuse refusal)
  declared := fun _ _ _ ends => by cases ends

theorem after
    (contained : first.Orderly target .contained)
    (next : ∀ value, Declares target holds (rest value)) :
    Declares target holds (first >>= rest) where
  orderly := contained.declaring.bind fun value => (next value).orderly
  unchanged := by
    intro cx refusal after refused
    obtain refused | ⟨value, between, begun, refused⟩ := refused_of_bind refused
    · exact Render.Steps.symbols_eq contained refused
    · calc after.symbols = between.symbols := (next value).unchanged _ _ _ refused
        _ = cx.symbols := Render.Steps.symbols_eq contained begun
  declared := by
    intro cx value after ends
    obtain ⟨middle, between, firstEnds, restEnds⟩ := Trial.bind_eq_ok.mp ends
    obtain ⟨symbol, fits, same⟩ := (next middle).declared between value after restEnds
    rw [Render.Steps.symbols_eq contained firstEnds] at same
    exact ⟨symbol, fits, same⟩

theorem andThen (begun : Declares target holds first)
    (certain : ∀ value, Certain target .contained (rest value)) :
    Declares target holds (first >>= rest) where
  orderly := begun.orderly.bind fun value => (certain value).orderly.declaring
  unchanged := by
    intro cx refusal after refused
    obtain refused | ⟨value, between, _, refused⟩ := refused_of_bind refused
    · exact begun.unchanged _ _ _ refused
    · exact ((certain value).accepted _ _ _ refused).elim
  declared := by
    intro cx value after ends
    obtain ⟨middle, between, firstEnds, restEnds⟩ := Trial.bind_eq_ok.mp ends
    obtain ⟨symbol, fits, same⟩ := begun.declared cx middle between firstEnds
    exact ⟨symbol, fits, (Render.Steps.symbols_eq (certain middle).orderly restEnds).trans same⟩

end Declares

end Attempt

end Retarget
