import Retarget.Proofs.PythonExprOrderly

/-!
# Exit tests

The test on which a `do` loop ends in Python, against the condition on which it goes on. Two values
compare as numbers do, except that a floating value may be none and is then unordered with all.
-/

namespace Retarget

/-- Whether a comparison holds of two values in the given order; unordered values are unequal. -/
def CompareOp.holdsFor (op : CompareOp) : Option Ordering → Bool
  | none => op = .ne
  | some order =>
    match op with
    | .lt => order.isLT
    | .le => order.isLE
    | .gt => order.isGT
    | .ge => order.isGE
    | .eq => order.isEq
    | .ne => order.isNe

namespace CompareOp

theorem holdsFor_inverse_ordered (op : CompareOp) (order : Ordering) :
    op.inverse.holdsFor (some order) = !op.holdsFor (some order) := by
  cases op <;> cases order <;> rfl

theorem holdsFor_inverse_unordered (op : CompareOp) :
    op.inverse.holdsFor none = !op.holdsFor none ↔ op = .eq ∨ op = .ne := by
  cases op <;> decide

end CompareOp

/-- The order of any two operands, and the truth of conditions that are not put together. -/
structure Valuation where
  order? : Expr → Expr → Option Ordering
  truth : Expr → Bool

namespace Expr

/-- Whether a condition holds, which Java and Python decide alike. -/
def holds (values : Valuation) : Expr → Bool
  | literal (.bool value) => value
  | compare op left right => op.holdsFor (values.order? left right)
  | unary .not operand => !operand.holds values
  | logical .and left right => left.holds values && right.holds values
  | logical .or left right => left.holds values || right.holds values
  | ternary condition onTrue onFalse =>
    if condition.holds values then onTrue.holds values else onFalse.holds values
  | e => values.truth e

/-- A condition with its comparison inverted, or negated as a whole. -/
def exit : Expr → Expr
  | compare op left right => compare op.inverse left right
  | condition => unary .not condition

theorem holds_exit_iff (values : Valuation) (condition : Expr) :
    condition.exit.holds values = !condition.holds values ↔
      ∀ op left right, condition = compare op left right → values.order? left right = none →
        op = .eq ∨ op = .ne := by
  cases condition with
  | compare op left right =>
    cases found : values.order? left right with
    | none => simpa [exit, holds, found] using op.holdsFor_inverse_unordered
    | some order => simpa [exit, holds, found] using op.holdsFor_inverse_ordered order
  | _ => simp [exit, holds]

end Expr

namespace Python

theorem exitTest_eq_expr_exit (condition : Expr) : exitTest condition = expr condition.exit := by
  have negated (e : Expr) : (do return "not " ++ (← operand e) : Attempt String) =
      expr (.unary .not e) := by simp [operand, expr]
  cases condition with
  | compare => rfl
  | _ => exact negated _

/-- The exit test is a text of the condition's exit, which holds exactly when the condition does
not, unless the condition puts two unordered values in order. -/
theorem exitTest_negates_iff (condition : Expr) {cx after : Context} {text : String}
    (rendered : (exitTest condition).run.run cx = .ok (.ok text, after)) :
    Renders cx.symbols condition.exit text ∧ ∀ values : Valuation,
      (condition.exit.holds values = !condition.holds values ↔
        ∀ op left right, condition = .compare op left right →
          values.order? left right = none → op = .eq ∨ op = .ne) := by
  rw [exitTest_eq_expr_exit] at rendered
  exact ⟨(renders_of_run rfl rendered).1, fun values => condition.holds_exit_iff values⟩

/-- A test of equality is inverted, and a conjunction with an order in it negated. -/
theorem exitTest_negates_iff_unordered :
    let cx : Context := { target := .python }
    let apart : Expr := .compare .ne (.ident "x") (.ident "y")
    let both : Expr := .logical .and (.compare .lt (.ident "x") (.ident "y")) (.ident "more")
    let values : Valuation := { order? := fun _ _ => none, truth := fun _ => true }
    (∃ result after, (exitTest apart).run.run cx = .ok (result, after) ∧ result = .ok "x == y" ∧
      apart.exit.holds values = !apart.holds values) ∧
    ∃ result after, (exitTest both).run.run cx = .ok (result, after) ∧
      result = .ok "not ((x < y) and more)" ∧ both.exit.holds values = !both.holds values := by
  intro cx apart both values
  have inverted : ∃ result after, (exitTest apart).run.run cx = .ok (result, after) ∧
      result = .ok "x == y" := by decide +kernel
  have negated : ∃ result after, (exitTest both).run.run cx = .ok (result, after) ∧
      result = .ok "not ((x < y) and more)" := by decide +kernel
  obtain ⟨_, first, rendered, rfl⟩ := inverted
  obtain ⟨_, second, renderedToo, rfl⟩ := negated
  refine ⟨⟨_, first, rendered, rfl, ?_⟩, ⟨_, second, renderedToo, rfl, ?_⟩⟩
  · refine ((exitTest_negates_iff apart rendered).2 values).mpr fun op left right same _ => ?_
    exact .inr (Expr.compare.inj same).1.symm
  · exact ((exitTest_negates_iff both renderedToo).2 values).mpr nofun

/-- A loop that goes on while `x < y` does not end on unordered values: its exit test fails too. -/
theorem exitTest_misses_unordered :
    let cx : Context := { target := .python }
    let condition : Expr := .compare .lt (.ident "x") (.ident "y")
    let values : Valuation := { order? := fun _ _ => none, truth := fun _ => true }
    (∃ result after, (exitTest condition).run.run cx = .ok (result, after) ∧
      result = .ok "x >= y") ∧
    condition.holds values = false ∧ condition.exit.holds values = false := by decide +kernel

end Python

end Retarget
