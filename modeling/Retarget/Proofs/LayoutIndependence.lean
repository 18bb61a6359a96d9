import Retarget.Proofs.CStmtWriting
import Retarget.Proofs.PythonStmtWriting

/-!
# The layout only moves lines

For both targets a statement is written as one list of rows, whatever the layout of the context.
-/

namespace Retarget

def Row.outcome (outcome : Except Refusal (List Row)) (layout : Layout) :
    Except Refusal (List String) :=
  outcome.map fun rows => Row.lines rows layout

namespace Attempt

theorem Lays.outcome_of_run {rule : SymbolRule} {shape : List Row → Prop} {target : Target}
    {extent : Extent} {attempt : Attempt (List String)} {cx after : Context}
    {result : Except Refusal (List String)} (lays : attempt.Lays rule 0 after.capabilities shape)
    (orderly : attempt.Orderly target extent) (admits : rule.Admits after.capabilities cx.symbols)
    (ends : attempt.run.run cx = .ok (result, after)) :
    ∃ outcome, Render.Agrees (fun _ => attempt.run) 0 cx cx.layout (Row.outcome outcome) after := by
  obtain ⟨common, outcome, -, agrees⟩ := Render.Writes.agrees_of_run lays orderly admits ends
  cases outcome with
  | refused refusal => exact ⟨.error refusal, agrees⟩
  | given fact =>
    obtain ⟨rows, rfl, -⟩ := fact
    exact ⟨.ok rows, agrees⟩

end Attempt

namespace Target

/-- Whatever the leaves of a statement and the symbols in scope, it is laid out in rows. -/
theorem statement_outcome (target : Target) (s : Stmt) {cx after : Context}
    {result : Except Refusal (List String)}
    (ends : (target.statement s).run.run cx = .ok (result, after)) :
    ∃ outcome, Render.Agrees (fun _ => (target.statement s).run) 0 cx cx.layout
      (Row.outcome outcome) after := by
  have clean : s.Over Diction.any.admits := fun _ _ => True.intro
  cases target with
  | c =>
    have lists : C.MayList (.of .any) 0 after.capabilities (C.stmt s) := C.stmt_mayList clean 0
    apply lists.outcome_of_run (C.stmt_orderly s) _ ends
    intro symbol _
    exact ⟨True.intro, fun _ _ => .measured True.intro⟩
  | python =>
    apply (Python.stmt_builds s clean 0).outcome_of_run (Python.stmt_orderly s) _ ends
    intro symbol _
    exact True.intro

/-- A statement that is rendered or refused in one layout is so in every other, with the same rows
and the same state afterwards, unless that layout has no room for the levels it needs. A layout that
is indented no deeper and no wider has room. -/
theorem statement_relaid (target : Target) (s : Stmt) {cx after : Context}
    {result : Except Refusal (List String)}
    (ends : (target.statement s).run.run cx = .ok (result, after)) :
    after.layout = cx.layout ∧ ∃ outcome, result = Row.outcome outcome cx.layout ∧ ∀ layout,
      (∀ other final, (target.statement s).run.run (cx.relaid layout) = .ok (other, final) →
        other = Row.outcome outcome layout ∧ final = after.relaid layout) ∧
      ∀ fault, (target.statement s).run.run (cx.relaid layout) = .error fault →
        fault ∈ Fault.ofRoom ∧ ¬layout ≤ cx.layout := by
  obtain ⟨outcome, agrees⟩ := target.statement_outcome s ends
  obtain ⟨same, unmoved⟩ := Prod.mk.inj (Except.ok.inj (ends.symm.trans agrees.run_start))
  refine ⟨?_, outcome, same, fun layout => ⟨fun other final endsToo => ?_, fun fault fails => ?_⟩⟩
  · rw [unmoved]
    rfl
  · rcases agrees layout with moved | ⟨-, _, -, fails⟩
    · exact Prod.mk.inj (Except.ok.inj (endsToo.symm.trans moved))
    · cases endsToo.symm.trans fails
  · rcases agrees layout with moved | ⟨above, _, room, failsToo⟩
    · cases fails.symm.trans moved
    · cases fails.symm.trans failsToo
      exact ⟨room, above⟩

/-- A loop whose body is refused and commented out, four columns to the right and in the first
column. -/
theorem statement_relaid_loop :
    let s : Stmt := .whileLoop (.literal (.bool true)) [.unsupported "try" "try", .breakStmt]
    let cx : Context := { target := .c, settings := { indentWidth := 2 }, indent := 2 }
    let layout : Layout := { indent := 0, width := 3 }
    ∃ result after, (c.statement s).run.run cx = .ok (result, after) ∧
      result = .ok ["    while (true) \x7b", "      // unsupported: try", "      break;", "    \x7d"] ∧
      ∃ other final, (c.statement s).run.run (cx.relaid layout) = .ok (other, final) ∧
        other = .ok ["while (true) \x7b", "   // unsupported: try", "   break;", "\x7d"] ∧
        final = after.relaid layout := by
  intro s cx layout
  have rendered : ∃ result after, (c.statement s).run.run cx = .ok (result, after) ∧
      result = .ok ["    while (true) \x7b", "      // unsupported: try", "      break;",
        "    \x7d"] := by decide +kernel
  have relaid : ∃ other final, (c.statement s).run.run (cx.relaid layout) = .ok (other, final) ∧
      other = .ok ["while (true) \x7b", "   // unsupported: try", "   break;", "\x7d"] := by
    decide +kernel
  obtain ⟨result, after, ends, lines⟩ := rendered
  obtain ⟨other, final, endsToo, linesToo⟩ := relaid
  obtain ⟨-, outcome, -, everywhere⟩ := statement_relaid c s ends
  obtain ⟨-, moved⟩ := (everywhere layout).1 other final endsToo
  exact ⟨result, after, ends, lines, other, final, endsToo, linesToo, moved⟩

/-- An empty block at the greatest level of indentation: one level deeper cannot be counted, though
the width of a level is zero and both lines would begin in the first column. -/
theorem statement_block_at_greatest_level :
    let cx : Context := { target := .c, settings := { indentWidth := 0 } }
    (∃ result after, (c.statement (.block [])).run.run cx = .ok (result, after) ∧
      result = .ok ["\x7b", "\x7d"]) ∧
      (c.statement (.block [])).run.run (cx.relaid { indent := wordCount - 1, width := 0 }) =
        .error .add := by
  constructor
  · decide +kernel
  · rfl

end Target

end Retarget
