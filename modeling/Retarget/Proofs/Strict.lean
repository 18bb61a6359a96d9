import Retarget.Proofs.CStmtOrderly
import Retarget.Proofs.PythonStmtOrderly
import Retarget.Render.Dispatch

/-!
# Degradation is never silent

Both targets render statements in an orderly way, whether a statement is rendered, refused or
degraded. A strict rendering takes the same steps but fails where a statement is given up: it only
uses the lines that the statements have of their own, at every level of nesting.
-/

namespace Retarget.Target

theorem statement_orderly (target : Target) (stmt : Stmt) :
    (target.statement stmt).Orderly target stmt.extent := by
  cases target with
  | c => exact C.stmt_orderly stmt
  | python => exact Python.stmt_orderly stmt

theorem statement_atomic (target : Target) (stmt : Stmt) :
    (target.statement stmt).Atomic target := by
  cases target with
  | c => exact C.stmt_atomic stmt
  | python => exact Python.stmt_atomic stmt

theorem renderStatement_orderly (target : Target) (source : Option String) (stmt : Stmt) :
    (target.renderStatement source stmt).Orderly target .declaring :=
  Render.settle_steady source stmt (target.statement_orderly stmt)

theorem renderStatements_orderly (target : Target) (block : List Stmt) :
    (target.renderStatements block).Orderly target .declaring := by
  cases target with
  | c => exact C.stmts_orderly block
  | python => exact Python.stmts_orderly block

theorem blockLines_orderly (target : Target) (block : List Stmt) :
    (target.blockLines block).Orderly target .contained :=
  (target.renderStatements_orderly block).nested

/-- The lines of statements in order, each given with the text it was read from if there is one. -/
def renderAll (target : Target) (program : List (Option String × Stmt)) : Render (List String) :=
  Render.concatMap (fun part => target.renderStatement part.1 part.2) program

theorem renderAll_orderly (target : Target) (program : List (Option String × Stmt)) :
    (target.renderAll program).Orderly target .declaring := by
  exact .concatMap (fun part => target.renderStatement_orderly part.1 part.2) program

/-- However a statement or a block is rendered, and also when it is refused, only the innermost
scope, the warnings and the capabilities may change, and the latter two only grow. -/
theorem generation_frame (target : Target) (cx after : Context) :
    (∀ stmt result, (target.statement stmt).run.run cx = .ok (result, after) → cx.Frame after) ∧
      (∀ source stmt lines,
        (target.renderStatement source stmt).run cx = .ok (lines, after) → cx.Frame after) ∧
      (∀ block lines, (target.blockLines block).run cx = .ok (lines, after) → cx.Frame after) := by
  refine ⟨?_, ?_, ?_⟩
  · intro stmt result ends
    exact (target.statement_orderly stmt).frame ends
  · intro source stmt lines ends
    exact (target.renderStatement_orderly source stmt).frame ends
  · intro block lines ends
    exact (target.blockLines_orderly block).frame ends

/-- A loop that is refused for its condition after its variable was declared keeps the frame of a
context with two scopes, and so do its degraded rendering and a block of it. -/
theorem generation_frame_refused_loop :
    let loop := Stmt.forLoop (some (.declare "int" .int none))
      (some (.assign .plain (.ident "int") (.ident "x"))) [] []
    let cx : Context :=
      { target := .python
        symbols := { inner := [Symbol.scalar "x" .int], outer := [[Symbol.scalar "y" .int]] }
        warnings := ["given"] }
    (∃ result after, (Target.python.statement loop).run.run cx = .ok (result, after) ∧
        (result.isOk = false ∧ after.warnings ≠ cx.warnings) ∧ cx.Frame after) ∧
      (∃ lines after, (Target.python.renderStatement (some "int z = 1;") loop).run cx =
        .ok (lines, after) ∧ after.symbols ≠ cx.symbols ∧ cx.Frame after) ∧
      (∃ lines after, (Target.python.blockLines [loop]).run cx =
        .ok (lines, after) ∧ lines ≠ [] ∧ cx.Frame after) := by
  intro loop cx
  refine ⟨?_, ?_, ?_⟩
  · have refused : ∃ result after, (Target.python.statement loop).run.run cx =
        .ok (result, after) ∧ (result.isOk = false ∧ after.warnings ≠ cx.warnings) := by
      decide +kernel
    obtain ⟨result, after, ends, warned⟩ := refused
    exact ⟨result, after, ends, warned, (generation_frame .python cx after).1 loop _ ends⟩
  · have rendered : ∃ lines after, (Target.python.renderStatement (some "int z = 1;") loop).run cx =
        .ok (lines, after) ∧ after.symbols ≠ cx.symbols := by decide +kernel
    obtain ⟨lines, after, ends, declared⟩ := rendered
    exact ⟨lines, after, ends, declared, (generation_frame .python cx after).2.1 _ loop _ ends⟩
  · have rendered : ∃ lines after, (Target.python.blockLines [loop]).run cx =
        .ok (lines, after) ∧ lines ≠ [] := by decide +kernel
    obtain ⟨lines, after, ends, written⟩ := rendered
    exact ⟨lines, after, ends, written, (generation_frame .python cx after).2.2 [loop] _ ends⟩

end Retarget.Target

/-! ## Strict renderings -/

namespace Retarget

variable {cx after between : Context}

namespace Render

variable {α β : Type}

/-- The value of a rendering and the context it ends in, unless a statement is refused or comes out
as nothing on the way. -/
def strict : Render α → Context → Option (α × Context)
  | done value, cx => some (value, cx)
  | halt _, _ => none
  | read next, cx => (next cx).strict cx
  | update change next, cx => next.strict (change cx)
  | giveUp _, _ => none

theorem strict_bind (first : Render α) (rest : α → Render β) (cx : Context) :
    (first >>= rest).strict cx =
      (first.strict cx).bind fun reached => (rest reached.1).strict reached.2 := by
  change (first.bind rest).strict cx = _
  induction first generalizing cx with
  | done value => rfl
  | halt fault => rfl
  | read next ih => exact ih cx cx
  | update change next ih => exact ih (change cx)
  | giveUp next => rfl

theorem strict_bind_eq_some {first : Render α} {rest : α → Render β} {middle : α} {value : β}
    (begun : first.strict cx = some (middle, between))
    (ends : (rest middle).strict between = some (value, after)) :
    (first >>= rest).strict cx = some (value, after) := by
  rw [strict_bind, begun, Option.bind_some, ends]

theorem strict_ofExcept_ok {result : Except Fault α} {value : α} (same : result = .ok value)
    (cx : Context) : (ofExcept result).strict cx = some (value, cx) := by
  rw [same]
  rfl

theorem strict_declareFor {target : Target} {symbol : Symbol} {chosen : String}
    (ends : (declareFor target symbol).run cx = .ok (chosen, after)) :
    (declareFor target symbol).strict cx = some (chosen, after) := by
  obtain ⟨between, choice, rfl⟩ := run_declareFor_eq_ok ends
  refine strict_bind_eq_some (strict_bind_eq_some rfl ?_) rfl
  obtain ⟨collides, rfl, rfl⟩ | ⟨collides, rfl, rfl⟩ := run_chooseName_eq_ok choice
  · rw [if_neg (by simp [collides])]
    rfl
  · rw [if_pos collides]
    rfl

theorem strict_indented {body : Render α} {value : α}
    (fits : cx.indent + 1 < wordCount)
    (inside : body.strict { cx with indent := cx.indent + 1 } = some (value, between)) :
    (indented body).strict cx = some (value, { between with indent := between.indent - 1 }) := by
  refine strict_bind_eq_some rfl ?_
  refine strict_bind_eq_some (strict_ofExcept_ok (if_pos fits) cx) ?_
  refine strict_bind_eq_some rfl ?_
  exact strict_bind_eq_some inside rfl

theorem strict_inScope {body : Render α} {value : α}
    (inside : body.strict cx.pushScope = some (value, between)) :
    (inScope body).strict cx = some (value, between.popScope) := by
  refine strict_bind_eq_some rfl ?_
  exact strict_bind_eq_some inside rfl

theorem Told.excused_of_silent {excused : α → Prop} {rendering : Render α} {value : α}
    (told : Told excused rendering) (ends : rendering.run cx = .ok (value, after))
    (silent : ∀ message ∈ after.warnings, isNotice message = false) : excused value := by
  obtain excuse | ⟨message, given, notice⟩ := told cx value after ends
  · exact excuse
  · rw [silent message given] at notice
    cases notice

theorem Steps.strict_eq_some {target : Target} {room : Nat} {extent : Extent}
    {excused : α → Prop} {rendering : Render α} {value : α}
    (steps : rendering.Steps True target room extent excused)
    (ends : rendering.run cx = .ok (value, after)) (unexcused : ¬ excused value)
    (silent : ∀ message ∈ after.warnings, isNotice message = false) :
    rendering.strict cx = some (value, after) := by
  induction steps generalizing cx after with
  | done result =>
    cases ends
    rfl
  | halt fault => cases ends
  | read _ ih => exact ih cx (.inl trivial) ends unexcused silent
  | warn message =>
    cases ends
    rfl
  | require capability =>
    cases ends
    rfl
  | declareFor symbol => exact strict_declareFor ends
  | declareFresh base type free =>
    cases ends
    rfl
  | indented _ _ ih =>
    obtain ⟨between, fits, inside, rfl⟩ := run_indented_eq_ok ends
    exact strict_indented fits (ih inside unexcused silent)
  | inScope _ ih =>
    obtain ⟨between, inside, rfl⟩ := run_inScope_eq_ok ends
    exact strict_inScope (ih inside unexcused silent)
  | giveUp _ told _ => exact (unexcused (told.excused_of_silent ends silent)).elim
  | bind _ restSteps told firstIh restIh =>
    obtain ⟨middle, between, first, rest⟩ := bind_eq_ok.mp ends
    -- Warnings are never taken back, so the first part left no notice either.
    have kept := ((restSteps middle).frame rest).warnings.subset
    have silentBetween : ∀ message ∈ between.warnings, isNotice message = false :=
      fun message given => silent message (kept given)
    have unexcusedBetween : ¬ _ := fun excuse =>
      unexcused ((told middle excuse).excused_of_silent rest silent)
    have begun := firstIh first unexcusedBetween silentBetween
    exact strict_bind_eq_some begun (restIh middle rest unexcused silent)

end Render

namespace Target

/-- The lines that a statement has of its own: it is not refused, and it comes out as no line only
where that is allowed. -/
def strictStatement (target : Target) (stmt : Stmt) (cx : Context) :
    Option (List String × Context) :=
  match (target.statement stmt).run.strict cx with
  | some (.ok lines, after) =>
    if !lines.isEmpty || Render.mayBeEmpty after.settings stmt then some (lines, after) else none
  | _ => none

/-- The lines of statements none of which is given up, if each of them can be written. -/
def strictLines (target : Target) : List Stmt → Context → Option (List String × Context)
  | [], cx => some ([], cx)
  | stmt :: rest, cx => do
    let (lines, between) ← target.strictStatement stmt cx
    let (others, after) ← target.strictLines rest between
    return (lines ++ others, after)

theorem strict_renderStatement (target : Target) (source : Option String) (stmt : Stmt)
    (cx : Context) :
    (target.renderStatement source stmt).strict cx = target.strictStatement stmt cx := by
  rw [renderStatement, Render.settle, Render.strict_bind, strictStatement]
  cases (target.statement stmt).run.strict cx with
  | none => rfl
  | some reached =>
    obtain ⟨refusal | lines, after⟩ := reached
    · rfl
    · rw [Option.bind_some, Render.strict_bind]
      dsimp only [Render.settings]
      change Render.strict (if _ then _ else _) after = _
      split
      · rfl
      · rfl

theorem strict_renderAll (target : Target) (program : List (Option String × Stmt))
    (cx : Context) :
    (target.renderAll program).strict cx = target.strictLines (program.map Prod.snd) cx := by
  unfold renderAll
  induction program generalizing cx with
  | nil => rfl
  | cons part rest ih =>
    rw [Render.concatMap, Render.strict_bind, strict_renderStatement, List.map_cons, strictLines]
    cases target.strictStatement part.2 cx with
    | none => rfl
    | some reached =>
      rw [Option.bind_some, Render.strict_bind, ih]
      rfl

/-- Statements that are rendered without a warning of a placeholder or of a degraded translation
all have lines of their own, and these are the ones given. The statements inside them count by the
same rule. -/
theorem strictLines_of_silent (target : Target) (program : List (Option String × Stmt))
    (cx after : Context) (lines : List String)
    (ends : (target.renderAll program).run cx = .ok (lines, after))
    (silent : ∀ message ∈ after.warnings,
      Text.endsIn "; left a placeholder" message = false ∧
        Text.contains "; used degraded translation: " message = false) :
    target.strictLines (program.map Prod.snd) cx = some (lines, after) ∧
      ∀ source stmt inside,
        (target.renderStatement source stmt).strict inside =
          target.strictStatement stmt inside := by
  refine ⟨?_, target.strict_renderStatement⟩
  rw [← strict_renderAll]
  refine (target.renderAll_orderly program).strict_eq_some ends id ?_
  intro message given
  rw [Render.isNotice, (silent message given).1, (silent message given).2]
  rfl

/-- A conditional that gives warnings of other kinds, with a loop inside, is rendered strictly. -/
theorem strictLines_of_silent_conditional :
    let conditional := Stmt.conditional
      (.compare .eq (.literal (.string "a")) (.literal (.string "b")))
      [.declare "print" .int none, .whileLoop (.ident "print") [.continueStmt]] [] none
    let cx : Context := { target := .python }
    ∃ lines after, (Target.python.renderAll [(none, conditional)]).run cx = .ok (lines, after) ∧
      (lines.length = 4 ∧ after.warnings.length = 2) ∧
      Target.python.strictLines [conditional] cx = some (lines, after) := by
  intro conditional cx
  have rendered : ∃ lines after,
      (Target.python.renderAll [(none, conditional)]).run cx = .ok (lines, after) ∧
      (lines.length = 4 ∧ after.warnings.length = 2) ∧ ∀ message ∈ after.warnings,
        Text.endsIn "; left a placeholder" message = false ∧
          Text.contains "; used degraded translation: " message = false := by decide +kernel
  obtain ⟨lines, after, ends, counted, silent⟩ := rendered
  exact ⟨lines, after, ends, counted,
    (strictLines_of_silent .python [(none, conditional)] cx after lines ends silent).1⟩

example : Target.c.strictLines
    [.whileLoop (.ident "x") [.block [.unsupported "try statement" "try { }"]]] { target := .c } =
      none := by decide +kernel

end Target

end Retarget
