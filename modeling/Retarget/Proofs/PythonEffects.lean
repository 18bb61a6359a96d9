import Retarget.Proofs.Declared

/-!
# Effects in Python expressions

Python texts of expressions repeat some parts of an expression and leave out others: an index may be
counted from the end, a character is stepped through its code point, and the value of a switch is
compared with each label.
-/

namespace Retarget

namespace Expr

def parts : Expr → List Expr
  | literal _ | ident _ => []
  | binary _ left right | logical _ left right | compare _ left right => [left, right]
  | unary _ operand | cast _ operand => [operand]
  | assign _ target value => [target, value]
  | update _ _ target => [target]
  | index array position => [array, position]
  | member object _ => [object]
  | arrayLiteral items => items
  | ternary condition onTrue onFalse => [condition, onTrue, onFalse]
  | call receiver _ args => receiver.toList ++ args

/-- An expression stands in another at any depth, or is it. -/
inductive Occurs : Expr → Expr → Prop where
  | here (e : Expr) : Occurs e e
  | part {inner part outer : Expr} (direct : part ∈ outer.parts) (inside : Occurs inner part) :
      Occurs inner outer

def isChange : Expr → Bool
  | assign .. | update .. => true
  | _ => false

def Unchanging (e : Expr) : Prop :=
  ∀ inner : Expr, inner.Occurs e → inner.isChange = false

variable {e : Expr}

namespace Unchanging

theorem of_parts (same : e.isChange = false) (parts : ∀ part ∈ e.parts, part.Unchanging) :
    e.Unchanging := by
  rintro inner (_ | ⟨direct, inside⟩)
  · exact same
  · exact parts _ direct inner inside

theorem part (unchanging : e.Unchanging) {part : Expr} (direct : part ∈ e.parts) :
    part.Unchanging :=
  fun inner inside => unchanging inner (.part direct inside)

theorem of_occurs (unchanging : e.Unchanging) {inner : Expr} (occurs : inner.Occurs e) :
    inner.Unchanging := by
  induction occurs with
  | here => exact unchanging
  | part direct _ ih => exact ih (unchanging.part direct)

end Unchanging

theorem sizeOf_lt_of_part {part e : Expr} (direct : part ∈ e.parts) : sizeOf part < sizeOf e := by
  cases e with
  | arrayLiteral items =>
    have smaller : sizeOf part < sizeOf items := List.sizeOf_lt_of_mem direct
    simp only [arrayLiteral.sizeOf_spec]
    omega
  | call receiver method args =>
    rcases List.mem_append.mp direct with isReceiver | isArg
    · rw [Option.mem_toList] at isReceiver
      cases isReceiver
      simp only [call.sizeOf_spec, Option.some.sizeOf_spec]
      omega
    · have smaller := List.sizeOf_lt_of_mem isArg
      simp only [call.sizeOf_spec]
      omega
  | _ => simp [parts] at direct <;> grind

theorem induction_parts {holds : Expr → Prop}
    (step : ∀ e, (∀ part ∈ e.parts, holds part) → holds e) (e : Expr) : holds e :=
  step e fun part _ => induction_parts step part
termination_by sizeOf e
decreasing_by exact sizeOf_lt_of_part ‹_›

theorem anyWrites_eq (name : String) (es : List Expr) :
    anyWrites name es = es.any fun e => e.writes name := by
  induction es with
  | nil => rfl
  | cons e rest ih => rw [anyWrites, ih, List.any_cons]

theorem writes_of_isChange (same : e.isChange = false) (name : String) :
    e.writes name = e.parts.any fun part => part.writes name := by
  rcases e with _ | _ | _ | _ | _ | _ | _ | _ | _ | _ | _ | _ | _ | ⟨_ | _, _, _⟩ <;>
    simp_all [isChange, writes, parts, anyWrites_eq, Bool.or_assoc]

theorem Unchanging.writes_eq_false (unchanging : e.Unchanging) (name : String) :
    e.writes name = false := by
  induction e using induction_parts with
  | step e ih =>
    rw [writes_of_isChange (unchanging e (.here e)), List.any_eq_false]
    intro part direct
    simp [ih part direct (unchanging.part direct)]

theorem unchanging_ident (name : String) : (ident name).Unchanging :=
  .of_parts rfl (by simp [parts])

theorem unchanging_of_ident? {e : Expr} {name : String} (named : e.ident? = some name) :
    e.Unchanging := by
  cases e with
  | ident other => exact unchanging_ident other
  | _ => cases named

end Expr

theorem unchanging_of_literalInteger {e : Expr} {value : Int}
    (found : literalInteger e = .ok (some value)) : e.Unchanging := by
  fun_induction literalInteger e generalizing value with
  | case1 literal => exact .of_parts rfl (by simp [Expr.parts])
  | case2 operand => cases found
  | case3 operand inner negated _ ih =>
    exact .of_parts rfl (by simpa [Expr.parts] using ih negated)
  | case4 operand plain _ => exact (plain value found).elim
  | case5 => cases found

theorem Trial.Returns.known {ε α : Type} {fact : Prop} (proof : fact) (trial : Trial ε α) :
    Returns trial fun _ => fact :=
  fun _ _ _ _ => proof

namespace Python

open Trial (Returns)

theorem fromEnd_eq_some {array position : Expr} {distance : Int}
    (found : fromEnd array position = .ok (some distance)) :
    ∃ right value, position = .binary .sub (.member array "length") right ∧
      literalInteger right = .ok (some value) := by
  unfold fromEnd at found
  split at found
  next left right =>
    split at found
    next measured =>
      cases left with
      | member object field =>
        simp only [Expr.lengthOf?, Option.ite_none_right_eq_some, Option.some.injEq] at measured
        obtain ⟨rfl, rfl⟩ := measured
        cases literal : literalInteger right with
        | error fault =>
          rw [literal] at found
          cases found
        | ok value =>
          cases value with
          | none =>
            rw [literal] at found
            cases found
          | some value => exact ⟨right, value, rfl, literal⟩
      | _ => cases measured
    next => cases found
  next => cases found

theorem unchanging_of_fromEnd {array position : Expr} {distance : Int}
    (found : fromEnd array position = .ok (some distance)) (unchanging : array.Unchanging) :
    position.Unchanging := by
  obtain ⟨right, value, rfl, literal⟩ := fromEnd_eq_some found
  have length : (Expr.member array "length").Unchanging :=
    .of_parts rfl (by simpa [Expr.parts] using unchanging)
  have number := unchanging_of_literalInteger literal
  exact .of_parts rfl (by simpa [Expr.parts] using ⟨length, number⟩)

theorem memberText_returns (object : Expr) (field : String) :
    Returns (memberText object.ident? field) fun _ => object.Unchanging := by
  cases named : object.ident? with
  | none =>
    exact .refuse _
  | some owner => exact .known (Expr.unchanging_of_ident? named) _

theorem stringCall_returns {fact : Prop} (method : String) (args : List Expr) (texts : List String)
    {receiver : Attempt String} (returns : Returns receiver fun _ => fact) :
    Returns (stringCall method args texts receiver) fun _ => fact := by
  have used (form : String → String) :
      Returns (receiver >>= fun text => pure (form text)) fun _ => fact :=
    returns.bind fun _ proof => .known proof _
  unfold stringCall
  split
  case h_9 => exact .refuse _
  all_goals exact used _

theorem callText_returns {fact : Prop} (types : List ValueType) (owner : Option String)
    (method : String) (args : List Expr) (texts : List String) {receiver : Attempt String}
    (named : ∀ name, owner = some name → fact) (returns : Returns receiver fun _ => fact) :
    Returns (callText types owner method args texts receiver) fun _ => fact := by
  cases owner with
  | some name => exact .known (named name rfl) _
  | none =>
    exact stringCall_returns method args texts returns

mutual

theorem expr_returns : (e : Expr) → Returns (expr e) fun _ => e.Unchanging
  | .literal value => .known (.of_parts rfl (by simp [Expr.parts])) _
  | .ident name => .known (Expr.unchanging_ident name) _
  | .binary op left right => by
    refine .last fun table => ?_
    refine (expr_returns left).bind fun _ first => (expr_returns right).bind fun _ second => ?_
    exact .known (.of_parts rfl (by simpa [Expr.parts] using ⟨first, second⟩)) _
  | .unary op operand => by
    refine (expr_returns operand).bind fun _ inner => ?_
    exact .known (.of_parts rfl (by simpa [Expr.parts] using inner)) _
  | .logical op left right => by
    refine (expr_returns left).bind fun _ first => (expr_returns right).bind fun _ second => ?_
    exact .known (.of_parts rfl (by simpa [Expr.parts] using ⟨first, second⟩)) _
  | .compare op left right => by
    have sides (before : Attempt Unit) (form : String → String → String) :
        Returns (before >>= fun _ => expr left >>= fun l => expr right >>= fun r =>
          pure (form l r)) fun _ => (Expr.compare op left right).Unchanging := by
      refine .last fun _ => ?_
      refine (expr_returns left).bind fun _ first => (expr_returns right).bind fun _ second => ?_
      exact .known (.of_parts rfl (by simpa [Expr.parts] using ⟨first, second⟩)) _
    refine .last fun table => ?_
    dsimp only
    split
    · exact sides _ _
    · exact sides (pure ()) _
  | .assign .. => .refuse _
  | .update .. => .refuse _
  | .index array position => by
    refine (expr_returns array).bind fun _ first => ?_
    have whole (second : position.Unchanging) : (Expr.index array position).Unchanging :=
      .of_parts rfl (by simpa [Expr.parts] using ⟨first, second⟩)
    refine (Returns.ofExcept (fromEnd array position)).bind fun distance found => ?_
    cases distance with
    | some k => exact .known (whole (unchanging_of_fromEnd found first)) _
    | none => exact (expr_returns position).bind fun _ second => .known (whole second) _
  | .member object field => by
    have whole (inner : object.Unchanging) : (Expr.member object field).Unchanging :=
      .of_parts rfl (by simpa [Expr.parts] using inner)
    unfold expr
    split
    · exact (expr_returns object).bind fun _ inner => .known (whole inner) _
    · exact fun cx text after ends => whole (memberText_returns object field cx text after ends)
  | .arrayLiteral items => by
    refine (exprs_return items).bind fun _ each => ?_
    exact .known (.of_parts rfl each) _
  | .ternary condition onTrue onFalse => by
    refine (expr_returns condition).bind fun _ first => (expr_returns onTrue).bind fun _ second =>
      (expr_returns onFalse).bind fun _ third => ?_
    exact .known (.of_parts rfl (by simpa [Expr.parts] using ⟨first, second, third⟩)) _
  | .cast type operand => by
    refine .last fun table => (expr_returns operand).bind fun _ inner => ?_
    exact .known (.of_parts rfl (by simpa [Expr.parts] using inner)) _
  | .call none method args => by
    refine .last fun table => (exprs_return args).bind fun _ each => ?_
    exact .known (.of_parts rfl (by simpa [Expr.parts] using each)) _
  | .call (some receiver) method args => by
    refine .last fun table => (exprs_return args).bind fun texts each => ?_
    have whole (first : receiver.Unchanging) : (Expr.call (some receiver) method args).Unchanging :=
      .of_parts rfl (by simpa [Expr.parts] using ⟨first, each⟩)
    apply callText_returns
    · intro name named
      exact whole (Expr.unchanging_of_ident? named)
    · split
      · exact (expr_returns receiver).bind fun _ first => .known (whole first) _
      · exact .refuse _

theorem exprs_return : (es : List Expr) → Returns (exprs es) fun _ => ∀ e ∈ es, e.Unchanging
  | [] => .known (by simp) _
  | e :: rest => by
    refine (expr_returns e).bind fun _ first => (exprs_return rest).bind fun _ others => ?_
    exact .known (by simpa using ⟨first, others⟩) _

end

section Values

variable (e : Expr)

theorem operand_returns : Returns (operand e) fun _ => e.Unchanging :=
  (expr_returns e).bind fun _ inner => .known inner _

theorem numericOperand_returns : Returns (numericOperand e) fun _ => e.Unchanging :=
  .last fun _ => (expr_returns e).bind fun _ inner => .known inner _

theorem stringValue_returns : Returns (stringValue e) fun _ => e.Unchanging :=
  .last fun _ => (expr_returns e).bind fun _ inner => .known inner _

end Values

theorem assignment_returns (op : AssignOp) (target value : Expr) :
    Returns (assignment op target value) fun _ => target.Unchanging ∧ value.Unchanging := by
  refine .last fun table => (expr_returns target).bind fun t first => ?_
  have filled {written : Attempt String} (returns : Returns written fun _ => value.Unchanging)
      (form : String → String) : Returns (written >>= fun text => pure (form text)) fun _ =>
        target.Unchanging ∧ value.Unchanging :=
    returns.bind fun _ second => .known ⟨first, second⟩ _
  cases op with
  | plain => exact filled (expr_returns value) _
  | compound op =>
    dsimp only
    split
    · exact filled (stringValue_returns value) _
    split
    · exact filled (numericOperand_returns value) _
    split
    · exact filled (numericOperand_returns value) _
    split
    · exact filled (operand_returns value) _
    · exact filled (numericOperand_returns value) _

theorem exprStatement_returns (e : Expr) :
    Returns (exprStatement e) fun _ => ∀ part ∈ e.parts, part.Unchanging := by
  unfold exprStatement
  split
  next op _ target =>
    exact (expr_returns target).bind fun _ inner => .known (by simpa [Expr.parts] using inner) _
  next op target value =>
    intro cx text after ends
    simpa [Expr.parts] using assignment_returns op target value cx text after ends
  next =>
    intro cx text after ends part direct
    exact (expr_returns e cx text after ends).part direct

/-- The value of a switch is written once for each label, so no change stands in it. -/
theorem switch_returns (discriminant : Expr) (cases : List Case) :
    Returns (stmt (.switch discriminant cases)) fun _ => discriminant.Unchanging :=
  .last fun _ => (operand_returns discriminant).bind fun _ inner => .known inner _

/-- Nothing that stands in an expression with a text changes a variable. A change that is a
statement of its own is the only one in it, and there is none in the value of a switch. -/
theorem unchanging_of_rendered (e : Expr) (cx after : Context) :
    (∀ text, (expr e).run.run cx = .ok (.ok text, after) → ∀ inner : Expr, inner.Occurs e →
      inner.isChange = false ∧ ∀ name, inner.writes name = false) ∧
    (∀ text, (exprStatement e).run.run cx = .ok (.ok text, after) → ∀ inner : Expr,
      inner.Occurs e → inner = e ∨ inner.isChange = false) ∧
    (∀ cases lines, (stmt (.switch e cases)).run.run cx = .ok (.ok lines, after) →
      ∀ inner : Expr, inner.Occurs e → inner.isChange = false) := by
  refine ⟨fun text rendered inner occurs => ?_, fun text rendered inner occurs => ?_,
    fun cases lines rendered => ?_⟩
  · have unchanging := (expr_returns e cx text after rendered).of_occurs occurs
    exact ⟨unchanging inner (.here inner), unchanging.writes_eq_false⟩
  · cases occurs with
    | here => exact .inl rfl
    | part direct inside =>
      exact .inr (exprStatement_returns e cx text after rendered _ direct inner inside)
  · exact switch_returns e cases cx lines after rendered

/-- An item that is counted from the end, a character that is stepped, and the value of a switch
with two labels: the array and its length are left out, and the others are written twice. -/
theorem unchanging_of_rendered_repeated :
    let cx : Context :=
      { target := .python
        symbols := { inner := [.array "a" .int 1 none, .array "word" .char 1 none] } }
    let last : Expr := .index (.ident "a")
      (.binary .sub (.member (.ident "a") "length") (.literal (.int "1")))
    let letter : Expr := .index (.ident "word") (.literal (.int "0"))
    let step : Expr := .update .increment true letter
    let cases : List Case :=
      [.mk [.value (.literal (.int "1")), .value (.literal (.int "2"))] [.breakStmt]]
    (∃ result after, (expr last).run.run cx = .ok (result, after) ∧ result = .ok "a[-1]" ∧
      ∀ inner : Expr, inner.Occurs last →
        inner.isChange = false ∧ ∀ name, inner.writes name = false) ∧
    (∃ result after, (exprStatement step).run.run cx = .ok (result, after) ∧
      result = .ok "word[0] = chr(ord(word[0]) + 1)" ∧
      ∀ inner : Expr, inner.Occurs step → inner = step ∨ inner.isChange = false) ∧
    ∃ result after, (stmt (.switch last cases)).run.run cx = .ok (result, after) ∧
      result = .ok ["if a[-1] == 1 or a[-1] == 2:", "    pass", "else:", "    pass"] ∧
      ∀ inner : Expr, inner.Occurs last → inner.isChange = false := by
  intro cx last letter step cases
  have item : ∃ result after, (expr last).run.run cx = .ok (result, after) ∧
      result = .ok "a[-1]" := by decide +kernel
  have stepped : ∃ result after, (exprStatement step).run.run cx = .ok (result, after) ∧
      result = .ok "word[0] = chr(ord(word[0]) + 1)" := by decide +kernel
  have switched : ∃ result after, (stmt (.switch last cases)).run.run cx = .ok (result, after) ∧
      result = .ok ["if a[-1] == 1 or a[-1] == 2:", "    pass", "else:", "    pass"] := by
    decide +kernel
  obtain ⟨_, after, rendered, rfl⟩ := item
  obtain ⟨_, afterStep, renderedStep, rfl⟩ := stepped
  obtain ⟨_, afterSwitch, renderedSwitch, rfl⟩ := switched
  refine ⟨⟨_, after, rendered, rfl, ?_⟩, ⟨_, afterStep, renderedStep, rfl, ?_⟩,
    ⟨_, afterSwitch, renderedSwitch, rfl, ?_⟩⟩
  · exact (unchanging_of_rendered last cx after).1 _ rendered
  · exact (unchanging_of_rendered step cx afterStep).2.1 _ renderedStep
  · exact (unchanging_of_rendered last cx afterSwitch).2.2 _ _ renderedSwitch

end Python

end Retarget
