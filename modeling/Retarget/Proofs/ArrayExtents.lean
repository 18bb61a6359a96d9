import Retarget.Proofs.Declared
import Retarget.Proofs.LoopIndex

/-!
# Extents of array literals

An array literal is declared with the greatest length at each depth, which leaves room for all lists
in braces that are written for it, and no more. So an extent is zero where no literal has an item,
while the allocation of an array is refused if a literal extent is below one.
-/

namespace Retarget.C

open Text

/-- Items that stand some levels below other items, in literals inside of literals. -/
inductive Nested : Nat → List Expr → List Expr → Prop where
  | here (items : List Expr) : Nested 0 items items
  | inside {depth : Nat} {items inner found : List Expr} (member : .arrayLiteral inner ∈ items)
      (deeper : Nested depth inner found) : Nested (depth + 1) items found

variable {count depth extent : Nat} {items : List Expr}

theorem getD_mergeMax (xs ys : List Nat) (depth : Nat) :
    (mergeMax xs ys)[depth]?.getD 0 = max (xs[depth]?.getD 0) (ys[depth]?.getD 0) := by
  fun_induction mergeMax xs ys generalizing depth with
  | case1 => simp
  | case2 => simp
  | case3 x xs y ys ih =>
    cases depth with
    | zero => rfl
    | succ depth => simpa using ih depth

theorem getElem?_padded (count : Nat) (xs : List Nat) (depth : Nat) :
    (padded count xs)[depth]? = if depth < count then some (xs[depth]?.getD 0) else none := by
  fun_induction padded count xs generalizing depth with
  | case1 => simp
  | case2 count ih => cases depth <;> simp [ih]
  | case3 count x xs ih => cases depth <;> simp [ih]

/-- Some literal among the items reaches the greatest length among them. -/
theorem le_deeperLengths_iff (some : 0 < count) : count ≤ (deeperLengths items)[depth]?.getD 0 ↔
    ∃ inner, .arrayLiteral inner ∈ items ∧
      count ≤ (levelLengths (.arrayLiteral inner))[depth]?.getD 0 := by
  induction items with
  | nil => simp [deeperLengths, some.ne']
  | cons item rest ih =>
    have first : count ≤ (levelLengths item)[depth]?.getD 0 ↔ ∃ inner, .arrayLiteral inner = item ∧
        count ≤ (levelLengths (.arrayLiteral inner))[depth]?.getD 0 := by
      cases item with
      | arrayLiteral inner => simp
      | _ => simp [levelLengths, some.ne']
    rw [deeperLengths, getD_mergeMax, le_max_iff, ih, first, ← exists_or]
    simp only [List.mem_cons, or_and_right]

/-- The entry at a depth is the greatest length among the literals there. -/
theorem le_levelLengths_iff (some : 0 < count) :
    count ≤ (levelLengths (.arrayLiteral items))[depth]?.getD 0 ↔
      ∃ found, Nested depth items found ∧ count ≤ found.length := by
  induction depth generalizing items with
  | zero =>
    refine ⟨fun long => ⟨items, .here items, long⟩, ?_⟩
    rintro ⟨_, ⟨⟩, long⟩
    exact long
  | succ depth ih =>
    have deeper : (levelLengths (.arrayLiteral items))[depth + 1]?.getD 0 =
        (deeperLengths items)[depth]?.getD 0 := rfl
    rw [deeper, le_deeperLengths_iff some]
    constructor
    · rintro ⟨inner, member, long⟩
      obtain ⟨found, nested, long⟩ := ih.mp long
      exact ⟨found, .inside member nested, long⟩
    · rintro ⟨found, nested, long⟩
      cases nested with
      | inside member nested => exact ⟨_, member, ih.mpr ⟨found, nested, long⟩⟩

section Initializers

variable {cx after : Context} {texts : List String} {text : String}

end Initializers

/-- The longer row counts, and a third dimension has no literals. -/
example : literalExtents [.arrayLiteral [.ident "a", .ident "b"], .arrayLiteral [.ident "c"]] 3 =
    [2, 2, 0] := by decide

theorem literalExtents_positive_iff (filled : items ≠ []) (dimensions : Nat) :
    (∀ extent ∈ literalExtents items dimensions, 1 ≤ extent) ↔
      ∀ depth < dimensions, ∃ found, Nested depth items found ∧ found ≠ [] := by
  have level : items.length :: deeperLengths items = levelLengths (.arrayLiteral items) := rfl
  have listed : (∀ extent ∈ literalExtents items dimensions, 1 ≤ extent) ↔
      ∀ depth < max dimensions 1, 1 ≤ (levelLengths (.arrayLiteral items))[depth]?.getD 0 := by
    simp only [literalExtents, level, List.mem_iff_getElem?, getElem?_padded]
    grind
  rw [listed]
  simp only [le_levelLengths_iff Nat.one_pos, Nat.one_le_iff_ne_zero, ne_eq,
    List.length_eq_zero_iff]
  refine ⟨fun each depth below => each depth (lt_max_of_lt_left below), fun each depth below => ?_⟩
  rcases lt_max_iff.mp below with below | first
  · exact each depth below
  · rw [Nat.lt_one_iff.mp first]
    exact ⟨items, .here items, filled⟩

theorem positive_of_hasEmptyExtent {extents : List Expr} (fine : hasEmptyExtent extents = .ok false) :
    ∀ e ∈ extents, ∀ n, literalInteger e = .ok (some n) → 1 ≤ n := by
  induction extents with
  | nil => exact List.forall_mem_nil _
  | cons first rest ih =>
    rw [hasEmptyExtent] at fine
    cases found : literalInteger first with
    | error fault =>
      rw [found] at fine
      cases fine
    | ok value =>
      rw [found] at fine
      refine List.forall_mem_cons.mpr ?_
      rw [found]
      cases value with
      | none => exact ⟨fun _ other => (by cases other), ih fine⟩
      | some n =>
        change (if n ≤ 0 then .ok true else hasEmptyExtent rest) = .ok false at fine
        split at fine
        · cases fine
        next positive =>
          refine ⟨?_, ih fine⟩
          rintro _ ⟨⟩
          omega

/-- A literal is declared with its extents, which are all positive just if at each depth below the
dimensions some literal has an item. An allocated array has no literal extent below one. -/
theorem declared_extents_positive_iff {name : String} {element : ValueType} {dimensions : Nat}
    {init : ArrayInit} {cx after : Context} {lines : List String}
    (ends : (declareArrayOf name element dimensions init).run.run cx = .ok (.ok lines, after)) :
    (∀ items, init = .literal items → (∃ front values, lines = [front ++
        extentText ((literalExtents items dimensions).map toString) ++ " = " ++ values ++ ";"]) ∧
      ((∀ extent ∈ literalExtents items dimensions, 1 ≤ extent) ↔
        ∀ depth < dimensions, ∃ found, Nested depth items found ∧ found ≠ [])) ∧
    ∀ extents, init = .allocate extents → ∀ extent ∈ extents, ∀ n,
      literalInteger extent = .ok (some n) → 1 ≤ n := by
  obtain ⟨written, _, -, ends⟩ := Trial.bind_eq_ok.mp ends
  constructor
  · rintro items rfl
    dsimp only [literalArray] at ends
    split at ends
    · cases ends
    next filled =>
      obtain ⟨extents, _, checked, ends⟩ := Trial.bind_eq_ok.mp ends
      obtain ⟨values, _, -, ends⟩ := Trial.bind_eq_ok.mp ends
      obtain ⟨target, _, -, ends⟩ := Trial.bind_eq_ok.mp ends
      have known := Trial.Returns.ofExcept _ _ _ _ checked
      rw [checkedExtents] at known
      split at known <;> cases known
      obtain ⟨line, _, single, ends⟩ := Render.bind_eq_ok.mp (run_of_lift ends)
      cases ends
      rw [Render.run_line_eq] at single
      split at single <;> cases single
      exact ⟨⟨after.layout.margin 0 ++ (written ++ " " ++ target), values,
        by simp [Row.line, String.append_assoc]⟩,
        literalExtents_positive_iff (by simpa using filled) dimensions⟩
  · rintro extents rfl
    dsimp only [allocatedArray] at ends
    split at ends
    · cases ends
    obtain ⟨isEmpty, _, checked, ends⟩ := Trial.bind_eq_ok.mp ends
    split at ends
    · cases ends
    next fine =>
      rw [Bool.eq_false_iff.mpr fine] at checked
      exact positive_of_hasEmptyExtent (Trial.Returns.ofExcept _ _ _ _ checked)

/-- Of two rows the longer one gives the extent, so one may be empty. -/
theorem declared_extents_positive_iff_ragged :
    let items : List Expr := [.arrayLiteral [], .arrayLiteral [.ident "x"]]
    ∃ lines after, (declareArrayOf "a" .int 2 (.literal items)).run.run { target := .c } =
      .ok (.ok lines, after) ∧ ∀ extent ∈ literalExtents items 2, 1 ≤ extent := by
  intro items
  have ran : ∃ result after, (declareArrayOf "a" .int 2 (.literal items)).run.run
      { target := .c } = .ok (result, after) ∧ result.isOk = true := by decide +kernel
  obtain ⟨_ | lines, after, ends, fine⟩ := ran
  · cases fine
  refine ⟨lines, after, ends, ((declared_extents_positive_iff ends).1 _ rfl).2.mpr ?_⟩
  intro depth below
  obtain rfl | rfl : depth = 0 ∨ depth = 1 := by omega
  · exact ⟨items, .here _, List.cons_ne_nil _ _⟩
  · exact ⟨_, .inside (.tail _ (.head _)) (.here _), List.cons_ne_nil _ _⟩

/-- Rows that are all empty leave an extent of zero. -/
theorem zero_extent_declared :
    ∃ lines after, (declareArrayOf "a" .int 2 (.literal [.arrayLiteral [], .arrayLiteral []])).run.run
      { target := .c } = .ok (lines, after) ∧
        lines.toOption = some ["int a[2][0] = \x7b\x7b\x7d, \x7b\x7d\x7d;"] := by decide +kernel

end Retarget.C
