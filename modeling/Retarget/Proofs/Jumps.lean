import Retarget.Proofs.ChangedVariables
import Retarget.Proofs.SwitchMeaning

/-!
# Where jumps lead

A `continue` is bound to the innermost loop around it and a `break` to the innermost loop or switch.
The analyses of jumps find exactly those that leave a statement.
-/

namespace Retarget

theorem blockHasOwnContinue_eq (block : List Stmt) :
    blockHasOwnContinue block = block.any Stmt.hasOwnContinue :=
  eq_any rfl (fun _ _ => rfl) block

theorem branchesHaveOwnContinue_eq (branches : List Branch) :
    branchesHaveOwnContinue branches =
      (branches.flatMap Branch.body).any Stmt.hasOwnContinue := by
  rw [List.any_flatMap]
  refine eq_any rfl (fun branch rest => ?_) branches
  obtain ⟨condition, body⟩ := branch
  rw [branchesHaveOwnContinue, blockHasOwnContinue_eq, Branch.body]

theorem casesHaveOwnContinue_eq (cases : List Case) :
    casesHaveOwnContinue cases = (cases.flatMap Case.body).any Stmt.hasOwnContinue := by
  rw [List.any_flatMap]
  refine eq_any rfl (fun case rest => ?_) cases
  obtain ⟨labels, body⟩ := case
  rw [casesHaveOwnContinue, blockHasOwnContinue_eq, Case.body]

theorem branchesBreakOut_eq (branches : List Branch) :
    branchesBreakOut branches = (branches.flatMap Branch.body).any Stmt.breaksOut := by
  rw [List.any_flatMap]
  refine eq_any rfl (fun branch rest => ?_) branches
  obtain ⟨condition, body⟩ := branch
  rw [branchesBreakOut, blockBreaksOut_eq, Branch.body]

namespace Stmt

variable {s jump : Stmt} {passes : Stmt → Prop}

/-- A loop keeps the continues in it to itself. -/
def PassesContinue : Stmt → Prop
  | forLoop .. | whileLoop .. | doWhile .. | forEach .. => False
  | _ => True

/-- A loop or a switch keeps the breaks in it to itself. -/
def PassesBreak : Stmt → Prop
  | switch .. | forLoop .. | whileLoop .. | doWhile .. | forEach .. => False
  | _ => True

/-- A jump stands in a statement and leaves it, since every statement around it lets it pass. -/
inductive Leaves (passes : Stmt → Prop) : Stmt → Stmt → Prop where
  | here (jump : Stmt) : Leaves passes jump jump
  | part {jump part outer : Stmt} (through : passes outer) (direct : part ∈ outer.parts)
      (inside : Leaves passes jump part) : Leaves passes jump outer

/-- No break and no continue stands in a sequence. -/
def JumpsApart (s : Stmt) : Prop :=
  ∀ parts, (sequence parts).Occurs s →
    ¬breakStmt.Occurs (sequence parts) ∧ ¬continueStmt.Occurs (sequence parts)

theorem JumpsApart.part {part : Stmt} (apart : s.JumpsApart) (direct : part ∈ s.parts) :
    part.JumpsApart :=
  fun parts occurs => apart parts (.part direct occurs)

theorem JumpsApart.of_parts (other : ∀ parts, s ≠ sequence parts)
    (apart : ∀ part ∈ s.parts, part.JumpsApart) : s.JumpsApart := by
  intro parts occurs
  cases occurs with
  | here => exact absurd rfl (other parts)
  | part direct inside => exact apart _ direct parts inside

theorem Leaves.occurs (leaves : jump.Leaves passes s) : jump.Occurs s := by
  induction leaves with
  | here => exact .here _
  | part _ direct _ ih => exact .part direct ih

/-- An analysis that looks for a jump in the parts of all statements which let it pass, but in no
sequence, finds those that leave if none stands in a sequence. -/
theorem found_iff_leaves {found : Stmt → Bool} (step : ∀ s, found s = true ↔
      s = jump ∨ (passes s ∧ ∀ parts, s ≠ sequence parts) ∧ s.parts.any found = true)
    (s : Stmt) (apart : ∀ parts, (sequence parts).Occurs s → ¬jump.Occurs (sequence parts)) :
    found s = true ↔ jump.Leaves passes s := by
  induction s using induction_parts with
  | step s ih =>
    have inner (part : Stmt) (direct : part ∈ s.parts) :=
      ih part direct fun parts occurs => apart parts (.part direct occurs)
    rw [step, List.any_eq_true]
    constructor
    · rintro (rfl | ⟨⟨through, -⟩, part, direct, inside⟩)
      · exact .here _
      · exact .part through direct ((inner part direct).mp inside)
    · intro leaves
      cases leaves with
      | here => exact .inl rfl
      | part through direct inside =>
        refine .inr ⟨⟨through, ?_⟩, _, direct, (inner _ direct).mpr inside⟩
        rintro parts rfl
        exact apart parts (.here _) (.part direct inside.occurs)

theorem hasOwnContinue_step (s : Stmt) : s.hasOwnContinue = true ↔ s = continueStmt ∨
    (s.PassesContinue ∧ ∀ parts, s ≠ sequence parts) ∧ s.parts.any hasOwnContinue = true := by
  cases s with
  | conditional condition body elifs otherwise =>
    cases otherwise <;>
      simp [hasOwnContinue, parts, PassesContinue, blockHasOwnContinue_eq,
        branchesHaveOwnContinue_eq, or_assoc, -List.any_flatMap, -List.any_eq_true]
  | _ =>
    simp [hasOwnContinue, parts, PassesContinue, blockHasOwnContinue_eq, casesHaveOwnContinue_eq]

theorem breaksOut_step (s : Stmt) : s.breaksOut = true ↔ s = breakStmt ∨
    (s.PassesBreak ∧ ∀ parts, s ≠ sequence parts) ∧ s.parts.any breaksOut = true := by
  cases s with
  | conditional condition body elifs otherwise =>
    cases otherwise <;>
      simp [breaksOut, parts, PassesBreak, blockBreaksOut_eq, branchesBreakOut_eq, or_assoc,
        -List.any_flatMap, -List.any_eq_true]
  | _ => simp [breaksOut, parts, PassesBreak, blockBreaksOut_eq]

theorem hasOwnContinue_iff (apart : s.JumpsApart) :
    s.hasOwnContinue = true ↔ continueStmt.Leaves PassesContinue s :=
  found_iff_leaves hasOwnContinue_step s fun parts occurs => (apart parts occurs).2

theorem breaksOut_iff (apart : s.JumpsApart) :
    s.breaksOut = true ↔ breakStmt.Leaves PassesBreak s :=
  found_iff_leaves breaksOut_step s fun parts occurs => (apart parts occurs).1

end Stmt

/-- The context with a message more exactly if there is reason for it. -/
def Context.WarnedIf (cx : Context) (reason : Prop) (message : String) (after : Context) : Prop :=
  (reason → after = cx.warn message) ∧ (¬reason → after = cx)

theorem Context.warnedIf_of_iff {cx : Context} {reason : Prop} {message : String} {found : Bool}
    (same : found = true ↔ reason) :
    cx.WarnedIf reason message (if found then cx.warn message else cx) :=
  ⟨fun holds => if_pos (same.mpr holds), fun fails => if_neg fun found => fails (same.mp found)⟩

theorem blockHasOwnContinue_iff {block : List Stmt} (apart : ∀ s ∈ block, s.JumpsApart) :
    blockHasOwnContinue block = true ↔
      ∃ s ∈ block, Stmt.continueStmt.Leaves Stmt.PassesContinue s := by
  rw [blockHasOwnContinue_eq, List.any_eq_true]
  exact exists_congr fun s => and_congr_right fun member => Stmt.hasOwnContinue_iff (apart s member)

theorem blockBreaksOut_iff {block : List Stmt} (apart : ∀ s ∈ block, s.JumpsApart) :
    blockBreaksOut block = true ↔ ∃ s ∈ block, Stmt.breakStmt.Leaves Stmt.PassesBreak s := by
  rw [blockBreaksOut_eq, List.any_eq_true]
  exact exists_congr fun s => and_congr_right fun member => Stmt.breaksOut_iff (apart s member)

theorem run_forLines_of_uncounted {init : Option Stmt} {condition : Option Expr}
    {update : List Expr} {block : List Stmt} (first body : Render (List String))
    (uncounted : Python.counting? init condition update block = .ok none) (cx : Context) :
    (Python.forLines init condition update block first body).run.run cx =
      (Python.whileLines first condition update body).run.run
        (if !update.isEmpty && blockHasOwnContinue block then
          cx.warn "`continue` in a for loop rewritten as while skips the loop update" else cx) := by
  unfold Python.forLines
  rw [uncounted]
  show (if !update.isEmpty && blockHasOwnContinue block then _ else _ :
    Attempt (List String)).run.run cx = _
  split <;> rfl

theorem run_doWhileLines (condition : Expr) (hasContinue : Bool) (body : Render (List String))
    (cx : Context) : (Python.doWhileLines condition hasContinue body).run.run cx =
      (Python.doWhileLines condition false body).run.run (if hasContinue then
        cx.warn "`continue` in a do-while body now skips the loop condition" else cx) := by
  cases hasContinue <;> rfl

/-- A continue is found in a statement exactly if one stands in it below no loop, and a break
exactly if one stands in it below no loop or switch. So a loop that is rewritten with its update or
its condition behind the body is warned of exactly if a continue in the body is bound to it, and a
switch exactly if a break is bound to it that is not the last statement of a case. -/
theorem jumps_found_exactly :
    (∀ s : Stmt, s.JumpsApart →
      (s.hasOwnContinue = true ↔ Stmt.continueStmt.Leaves Stmt.PassesContinue s) ∧
      (s.breaksOut = true ↔ Stmt.breakStmt.Leaves Stmt.PassesBreak s)) ∧
    (∀ init condition update body, (Stmt.forLoop init condition update body).JumpsApart →
      Python.counting? init condition update body = .ok none → ∀ cx : Context, ∃ start,
        cx.WarnedIf (update ≠ [] ∧ ∃ s ∈ body, Stmt.continueStmt.Leaves Stmt.PassesContinue s)
          "`continue` in a for loop rewritten as while skips the loop update" start ∧
        (Python.stmt (.forLoop init condition update body)).run.run cx =
          (Python.whileLines (init.elim (pure []) fun s => Render.settle .python none s
            (Python.stmt s)) condition update (Python.stmts body)).run.run start) ∧
    (∀ condition body, (Stmt.doWhile condition body).JumpsApart → ∀ cx : Context, ∃ start,
      cx.WarnedIf (∃ s ∈ body, Stmt.continueStmt.Leaves Stmt.PassesContinue s)
        "`continue` in a do-while body now skips the loop condition" start ∧
      (Python.stmt (.doWhile condition body)).run.run cx =
        (Python.doWhileLines condition false (Python.stmts body)).run.run start) ∧
    ∀ discriminant cases, (Stmt.switch discriminant cases).JumpsApart → ∀ cx : Context, ∃ after,
      ((openCaseWarnings 1 cases).foldl Context.warn cx).WarnedIf
        (∃ case ∈ cases, ∃ s ∈ withoutFinalBreak case.body,
          Stmt.breakStmt.Leaves Stmt.PassesBreak s)
        "`break` nested inside a switch case now applies to the enclosing loop" after ∧
      (Render.warnFallthrough cases).run cx = .ok ((), after) := by
  refine ⟨fun s apart => ⟨Stmt.hasOwnContinue_iff apart, Stmt.breaksOut_iff apart⟩, ?_, ?_, ?_⟩
  · intro init condition update body apart uncounted cx
    have inBody : ∀ s ∈ body, s.JumpsApart := fun s member =>
      apart.part (List.mem_append_right _ member)
    have reason : (!update.isEmpty && blockHasOwnContinue body) = true ↔
        update ≠ [] ∧ ∃ s ∈ body, Stmt.continueStmt.Leaves Stmt.PassesContinue s := by
      rw [Bool.and_eq_true, blockHasOwnContinue_iff inBody, Bool.not_eq_true',
        List.isEmpty_eq_false_iff]
    refine ⟨_, Context.warnedIf_of_iff reason, ?_⟩
    cases init <;> exact run_forLines_of_uncounted _ _ uncounted cx
  · intro condition body apart cx
    have inBody : ∀ s ∈ body, s.JumpsApart := fun s member => apart.part member
    exact ⟨_, Context.warnedIf_of_iff (blockHasOwnContinue_iff inBody),
      run_doWhileLines condition _ _ cx⟩
  · intro discriminant cases apart cx
    have reason : (cases.any fun case => blockBreaksOut case.arm.body) = true ↔
        ∃ case ∈ cases, ∃ s ∈ withoutFinalBreak case.body,
          Stmt.breakStmt.Leaves Stmt.PassesBreak s := by
      rw [List.any_eq_true]
      refine exists_congr fun case => and_congr_right fun isCase => blockBreaksOut_iff ?_
      intro s member
      exact apart.part (List.mem_flatMap.mpr ⟨case, isCase, withoutFinalBreak_subset _ member⟩)
    refine ⟨_, Context.warnedIf_of_iff reason, ?_⟩
    rw [run_warnFallthrough, fallthroughWarnings, List.foldl_append]
    split <;> rfl

/-- A switch keeps its breaks to itself, and its continues leave it. It is not warned of, but a loop
around it is that has its condition behind the body. -/
theorem jumps_found_exactly_switch :
    let cases : List Case := [.mk [.default] [.continueStmt, .breakStmt]]
    let s : Stmt := .switch (.ident "n") cases
    let cx : Context := { target := .python }
    s.JumpsApart ∧ s.hasOwnContinue = true ∧ s.breaksOut = false ∧
      Stmt.continueStmt.Leaves Stmt.PassesContinue s ∧
      ¬Stmt.breakStmt.Leaves Stmt.PassesBreak s ∧
      (∃ start, cx.WarnedIf (∃ inner ∈ [s], Stmt.continueStmt.Leaves Stmt.PassesContinue inner)
          "`continue` in a do-while body now skips the loop condition" start ∧
        (Python.stmt (.doWhile (.ident "b") [s])).run.run cx =
          (Python.doWhileLines (.ident "b") false (Python.stmts [s])).run.run start) ∧
      ∃ after, ((openCaseWarnings 1 cases).foldl Context.warn cx).WarnedIf
          (∃ case ∈ cases, ∃ s ∈ withoutFinalBreak case.body,
            Stmt.breakStmt.Leaves Stmt.PassesBreak s)
          "`break` nested inside a switch case now applies to the enclosing loop" after ∧
        (Render.warnFallthrough cases).run cx = .ok ((), after) := by
  intro cases s cx
  have leave : Stmt.breakStmt.JumpsApart := .of_parts (by simp) (by simp [Stmt.parts])
  have goOn : Stmt.continueStmt.JumpsApart := .of_parts (by simp) (by simp [Stmt.parts])
  have apart : s.JumpsApart := .of_parts (by simp [s])
    (List.forall_mem_cons.mpr ⟨goOn, List.forall_mem_singleton.mpr leave⟩)
  obtain ⟨continues, breaks⟩ := jumps_found_exactly.1 s apart
  have found : s.hasOwnContinue = true := rfl
  have missed : s.breaksOut = false := rfl
  have around : (Stmt.doWhile (.ident "b") [s]).JumpsApart :=
    .of_parts (by simp) (List.forall_mem_singleton.mpr apart)
  exact ⟨apart, found, missed, continues.mp found, breaks.not.mp (by rw [missed]; decide),
    jumps_found_exactly.2.2.1 _ _ around cx, jumps_found_exactly.2.2.2 _ cases apart cx⟩

end Retarget
