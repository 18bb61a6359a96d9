import Mathlib.Data.List.TakeWhile
import Retarget.Proofs.SwitchArms

/-!
# What a chain of conditionals runs

A switch runs from the case that its value selects on, through one case into the next, up to the
first jump.
-/

namespace Retarget

section Warnings

def openCaseWarnings (number : Nat) : List Case → List String
  | [] | [_] => []
  | case :: rest =>
    (if endsWithJump case.body then []
      else ["switch case " ++ toString number ++ " falls through; the next case is not run"]) ++
        openCaseWarnings (number + 1) rest

/-- The warnings of what a switch loses when it becomes a chain of conditionals. -/
def fallthroughWarnings (cases : List Case) : List String :=
  openCaseWarnings 1 cases ++
    if cases.any fun case => blockBreaksOut case.arm.body then
      ["`break` nested inside a switch case now applies to the enclosing loop"]
    else []

theorem openCaseWarnings_cons {rest : List Case} (later : rest ≠ []) (number : Nat) (case : Case) :
    openCaseWarnings number (case :: rest) =
      (if endsWithJump case.body then []
        else ["switch case " ++ toString number ++ " falls through; the next case is not run"]) ++
          openCaseWarnings (number + 1) rest := by
  cases rest with
  | nil => exact absurd rfl later
  | cons next rest => rfl

theorem run_warnOpenCases (number : Nat) (cases : List Case) (cx : Context) :
    (Render.warnOpenCases number cases).run cx =
      .ok ((), (openCaseWarnings number cases).foldl Context.warn cx) := by
  fun_induction Render.warnOpenCases number cases generalizing cx with
  | case1 => rfl
  | case2 => rfl
  | case3 number case rest later _ falls ih =>
    rw [openCaseWarnings_cons later, if_neg (by simpa using falls)]
    exact ih _
  | case4 number case rest later _ jumps ih =>
    rw [openCaseWarnings_cons later, if_pos (by simpa using jumps)]
    exact ih cx

theorem run_warnFallthrough (cases : List Case) (cx : Context) :
    (Render.warnFallthrough cases).run cx =
      .ok ((), (fallthroughWarnings cases).foldl Context.warn cx) := by
  rw [fallthroughWarnings, List.foldl_append, Render.warnFallthrough, Render.run_bind,
    run_warnOpenCases]
  show (if cases.any fun case => blockBreaksOut case.arm.body then
    Render.warn _ else pure ()).run _ = _
  split <;> rfl

/-- The warning of a case stands between those of the cases before and after it. -/
theorem openCaseWarnings_append (number : Nat) (before after : List Case) :
    ∃ first message last, ∀ case : Case, openCaseWarnings number (before ++ case :: after) = first ++
      ((if after = [] ∨ endsWithJump case.body = true then [] else [message]) ++ last) := by
  induction before generalizing number with
  | nil =>
    by_cases later : after = []
    · exact ⟨[], "", [], fun case => by simp [later, openCaseWarnings]⟩
    · simp only [later, false_or]
      exact ⟨[], _, _, openCaseWarnings_cons later number⟩
  | cons earlier before ih =>
    obtain ⟨first, message, last, same⟩ := ih (number + 1)
    obtain ⟨own, unfolded⟩ : ∃ own, ∀ rest, rest ≠ [] → openCaseWarnings number (earlier :: rest) =
        own ++ openCaseWarnings (number + 1) rest :=
      ⟨_, fun _ later => openCaseWarnings_cons later number earlier⟩
    refine ⟨own ++ first, message, last, fun case => ?_⟩
    rw [List.cons_append, unfolded _ (by simp), same, List.append_assoc]

end Warnings

section Jumps

/-- What is run of statements up to the first jump. A `break` leaves the switch and is nothing that
is run itself. -/
def untilJump : List Stmt → List Stmt
  | [] => []
  | s :: rest => if s.isBreak then [] else if s.isJump then [s] else s :: untilJump rest

variable {body rest : List Stmt}

theorem blockBreaksOut_eq (body : List Stmt) : blockBreaksOut body = body.any Stmt.breaksOut := by
  induction body with
  | nil => rfl
  | cons s rest ih => rw [blockBreaksOut, ih, List.any_cons]

theorem withoutFinalBreak_subset (body : List Stmt) : withoutFinalBreak body ⊆ body := by
  unfold withoutFinalBreak
  split
  · exact (List.dropLast_sublist body).subset
  · exact List.Subset.refl body

theorem isJump_of_isBreak {s : Stmt} (leaves : s.isBreak = true) : s.isJump = true := by
  cases s with
  | breakStmt => rfl
  | _ => cases leaves

end Jumps

section Selection

variable {equals : Expr → Bool} {cases before after : List Case} {case : Case}

end Selection

end Retarget
