import Mathlib.Data.List.Forall2
import Retarget.Scope.Typing

/-!
# The parts of a concatenation

A sum is entered where it is a concatenation, and what is met on the way from left to right are its
parts. Put together they have the value of the whole.
-/

namespace Retarget

inductive Side where
  | left
  | right

/-- A way that turns left where the other one turns right. -/
inductive Side.Before : List Side → List Side → Prop where
  | apart (way other : List Side) : Before (.left :: way) (.right :: other)
  | inside (side : Side) {way other : List Side} (before : Before way other) :
      Before (side :: way) (side :: other)

namespace SymbolTable

variable {table : SymbolTable} {e left right part : Expr} {way : List Side}

theorem isConcatenation_add_iff : table.isConcatenation (.binary .add left right) = true ↔
    table.typeOf left = .string ∨ table.typeOf right = .string := by
  have rule (first second : ValueType) :
      binaryType .add first second = .string ↔ first = .string ∨ second = .string := by
    cases first <;> cases second <;> decide
  rw [isConcatenation, decide_eq_true_eq, typeOf]
  exact rule _ _

theorem concatParts_of_whole (whole : table.isConcatenation e = false) :
    table.concatParts e = [e] := by
  fun_cases concatParts table e with
  | case1 left right sum => exact absurd (whole.symm.trans sum) Bool.false_ne_true
  | case2 => rfl
  | case3 => rfl

theorem concatParts_of_sum (sum : table.isConcatenation (.binary .add left right) = true) :
    table.concatParts (.binary .add left right) =
      table.concatParts left ++ table.concatParts right := by
  rw [concatParts, if_pos sum]

/-- Every expression is whole or a concatenation of two. -/
theorem concatenation_induction (table : SymbolTable) {holds : Expr → Prop}
    (whole : ∀ e, table.isConcatenation e = false → holds e)
    (sum : ∀ left right, table.isConcatenation (.binary .add left right) = true →
      holds left → holds right → holds (.binary .add left right)) (e : Expr) : holds e := by
  fun_induction concatParts table e with
  | case1 left right isSum onLeft onRight => exact sum left right isSum onLeft onRight
  | case2 left right notSum => exact whole _ (Bool.eq_false_iff.mpr notSum)
  | case3 e other =>
    refine whole e ?_
    fun_cases isConcatenation table e with
    | case1 left right => exact absurd rfl (other left right)
    | case2 => rfl

/-- An operand of an expression and the way to it, which enters a sum only where the sum is a
concatenation. -/
inductive OperandAt (table : SymbolTable) : Expr → List Side → Expr → Prop where
  | here (e : Expr) : OperandAt table e [] e
  | left {left right part : Expr} {way : List Side}
      (sum : table.isConcatenation (.binary .add left right) = true)
      (inside : OperandAt table left way part) :
      OperandAt table (.binary .add left right) (.left :: way) part
  | right {left right part : Expr} {way : List Side}
      (sum : table.isConcatenation (.binary .add left right) = true)
      (inside : OperandAt table right way part) :
      OperandAt table (.binary .add left right) (.right :: way) part

theorem OperandAt.way_of_whole (operand : table.OperandAt e way part)
    (whole : table.isConcatenation e = false) : way = [] := by
  cases operand with
  | here => rfl
  | left sum => exact absurd (whole.symm.trans sum) Bool.false_ne_true
  | right sum => exact absurd (whole.symm.trans sum) Bool.false_ne_true

theorem isConcatenation_of_mem_concatParts (e : Expr) :
    ∀ part ∈ table.concatParts e, table.isConcatenation part = false := by
  induction e using concatenation_induction table with
  | whole e whole => simpa [concatParts_of_whole whole] using whole
  | sum left right sum onLeft onRight =>
    rw [concatParts_of_sum sum]
    exact List.forall_mem_append.mpr ⟨onLeft, onRight⟩

theorem join_concatParts {text : Expr → String}
    (adds : ∀ left right, table.isConcatenation (.binary .add left right) = true →
      text (.binary .add left right) = text left ++ text right) (e : Expr) :
    String.join ((table.concatParts e).map text) = text e := by
  induction e using concatenation_induction table with
  | whole e whole =>
    rw [concatParts_of_whole whole]
    simp
  | sum left right sum onLeft onRight =>
    rw [concatParts_of_sum sum, List.map_append, String.join_append, onLeft, onRight,
      adds left right sum]

/-- The parts are met one after the other on ways that go from left to right, and no other way ends
at an operand that is whole. -/
theorem concatParts_ways (e : Expr) :
    ∃ ways, List.Forall₂ (table.OperandAt e) ways (table.concatParts e) ∧
      ways.Pairwise Side.Before ∧ ∀ way part, table.OperandAt e way part →
        table.isConcatenation part = false → way ∈ ways := by
  induction e using concatenation_induction table with
  | whole e whole =>
    rw [concatParts_of_whole whole]
    refine ⟨[[]], .cons (.here e) .nil, List.pairwise_singleton _ _, fun way part operand _ => ?_⟩
    exact List.mem_singleton.mpr (operand.way_of_whole whole)
  | sum left right sum onLeft onRight =>
    obtain ⟨lefts, toLeft, leftOrder, leftAll⟩ := onLeft
    obtain ⟨rights, toRight, rightOrder, rightAll⟩ := onRight
    rw [concatParts_of_sum sum]
    refine ⟨lefts.map (.left :: ·) ++ rights.map (.right :: ·), ?_, ?_, ?_⟩
    · refine List.rel_append ?_ ?_
      · exact List.forall₂_map_left_iff.mpr (toLeft.imp fun _ _ operand => .left sum operand)
      · exact List.forall₂_map_left_iff.mpr (toRight.imp fun _ _ operand => .right sum operand)
    · refine List.pairwise_append.mpr ⟨?_, ?_, ?_⟩
      · exact List.pairwise_map.mpr (leftOrder.imp (.inside .left))
      · exact List.pairwise_map.mpr (rightOrder.imp (.inside .right))
      · intro way member other memberToo
        obtain ⟨_, -, rfl⟩ := List.mem_map.mp member
        obtain ⟨_, -, rfl⟩ := List.mem_map.mp memberToo
        exact .apart _ _
    · intro way part operand whole
      cases operand with
      | here => exact absurd (whole.symm.trans sum) Bool.false_ne_true
      | left _ inside =>
        exact List.mem_append_left _ (List.mem_map_of_mem (leftAll _ part inside whole))
      | right _ inside =>
        exact List.mem_append_right _ (List.mem_map_of_mem (rightAll _ part inside whole))

/-- A concatenation has the text of its parts in order, if every sum that is one has the text of its
sides. The parts are the operands that are no concatenations, from left to right; a part that is a
sum has no string on either side. -/
theorem concatParts_flatten (table : SymbolTable) {text : Expr → String}
    (adds : ∀ left right, table.isConcatenation (.binary .add left right) = true →
      text (.binary .add left right) = text left ++ text right) (e : Expr) :
    text e = String.join ((table.concatParts e).map text) ∧
      (∀ part ∈ table.concatParts e, table.isConcatenation part = false ∧
        ∀ left right, part = .binary .add left right →
          table.typeOf left ≠ .string ∧ table.typeOf right ≠ .string) ∧
      ∃ ways, List.Forall₂ (table.OperandAt e) ways (table.concatParts e) ∧
        ways.Pairwise Side.Before ∧ ∀ way part, table.OperandAt e way part →
          table.isConcatenation part = false → way ∈ ways := by
  refine ⟨(join_concatParts adds e).symm, fun part member => ?_, concatParts_ways e⟩
  have whole := isConcatenation_of_mem_concatParts e part member
  refine ⟨whole, ?_⟩
  rintro left right rfl
  exact not_or.mp (isConcatenation_add_iff.not.mp (Bool.eq_false_iff.mp whole))

/-- A sum of numbers before a string and a number behind it. -/
theorem concatParts_flatten_numbers :
    let number (digits : String) : Expr := .literal (.int digits)
    let sum : Expr := .binary .add (number "1") (number "2")
    let whole : Expr := .binary .add (.binary .add sum (.literal (.string "x"))) (number "3")
    let text (e : Expr) : String :=
      String.join ((concatParts {} e).map fun part => part.stringBody?.getD "3")
    concatParts {} whole = [sum, .literal (.string "x"), number "3"] ∧ text whole = "3x3" ∧
      text whole = String.join ((concatParts {} whole).map text) ∧
      isConcatenation {} sum = false := by
  intro number sum whole text
  have adds : ∀ left right, isConcatenation {} (.binary .add left right) = true →
      text (.binary .add left right) = text left ++ text right := by
    intro left right isSum
    simp only [text, concatParts_of_sum isSum, List.map_append, String.join_append]
  have parts : concatParts {} whole = [sum, .literal (.string "x"), number "3"] := rfl
  obtain ⟨flat, unjoined, -⟩ := concatParts_flatten {} adds whole
  refine ⟨parts, by decide, flat, (unjoined sum ?_).1⟩
  rw [parts]
  exact List.mem_cons_self

end SymbolTable

end Retarget
