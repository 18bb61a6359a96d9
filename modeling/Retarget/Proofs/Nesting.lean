import Mathlib.Data.List.Chain
import Mathlib.Data.List.TakeWhile
import Retarget.Proofs.Writing

/-!
# Nesting of blocks

When rows of a Python program are well nested. A row stands deeper than the one before it only
directly below a header, and then by one level; each header has a suite that holds a statement; and
each `elif` and `else` follows the suite of an `if` or `elif` at its own depth.
-/

namespace Retarget

namespace Keyword

/-- Whether the word begins a part of a conditional that stands below another part. -/
def continues : Keyword → Bool
  | elif | .else => true
  | .if | .for | .while => false

/-- Whether another part of a conditional may stand below the part that the word begins. -/
def mayContinue : Keyword → Bool
  | .if | elif => true
  | .else | .for | .while => false

end Keyword

namespace Row

/-- Whether a row may stand directly below another: no deeper, or one level deeper below a
header. -/
def MayPrecede (row next : Row) : Prop :=
  next.depth ≤ row.depth ∨ (row.header.isSome = true ∧ next.depth = row.depth + 1)

/-- Whether a row holds neither a statement nor a header. -/
def isSilent (row : Row) : Bool :=
  Python.isSilent row.text

/-- A row that part of a conditional may follow, after rows that stand deeper. The rows before are
given from the last to the first. -/
def ClosesWith (depth : Nat) (before : List Row) : Prop :=
  ∃ opener ∈ (before.dropWhile fun row => depth < row.depth).head?,
    opener.depth = depth ∧ opener.header.any Keyword.mayContinue = true

def SuitesFilled : List Row → Prop
  | [] => True
  | row :: rest =>
    (row.header.isSome = true →
      ∃ inner ∈ rest.takeWhile fun next => row.depth < next.depth, inner.isSilent = false) ∧
    SuitesFilled rest

/-- Each part of a conditional that continues one stands directly below the suite of a part that it
may continue. The rows before are given from the last to the first. -/
def PartsLinked (before : List Row) : List Row → Prop
  | [] => True
  | row :: rest =>
    (row.header.any Keyword.continues = true → ClosesWith row.depth before) ∧
    PartsLinked (row :: before) rest

/-- Rows that begin at some depth, stand there or deeper, and whose headers all have suites. -/
structure Stacked (base : Nat) (rows : List Row) : Prop where
  first : ∀ row ∈ rows.head?, row.depth = base
  floor : ∀ row ∈ rows, base ≤ row.depth
  steps : rows.IsChain MayPrecede
  filled : SuitesFilled rows

/-- Rows that make up whole statements at some depth. -/
structure WellNested (base : Nat) (rows : List Row) : Prop extends Stacked base rows where
  linked : PartsLinked [] rows

/-- Well nested rows that end in a conditional which another part may continue. -/
structure OpenEnded (base : Nat) (rows : List Row) : Prop extends WellNested base rows where
  closes : ClosesWith base rows.reverse

variable {base : Nat} {rows more before : List Row}

theorem ClosesWith.append (closes : ClosesWith base rows) (more : List Row) :
    ClosesWith base (rows ++ more) := by
  obtain ⟨opener, found, fits⟩ := closes
  refine ⟨opener, ?_, fits⟩
  rw [List.dropWhile_append, if_neg, List.head?_append]
  · simp [Option.mem_def.mp found]
  · intro empty
    rw [List.isEmpty_iff.mp empty] at found
    cases found

theorem SuitesFilled.append (filled : SuitesFilled rows) (filledToo : SuitesFilled more) :
    SuitesFilled (rows ++ more) := by
  induction rows with
  | nil => exact filledToo
  | cons row rest ih =>
    obtain ⟨here, later⟩ := filled
    refine ⟨fun header => ?_, ih later⟩
    obtain ⟨inner, member, speaks⟩ := here header
    refine ⟨inner, ?_, speaks⟩
    rw [List.append_eq, List.takeWhile_append]
    split
    · exact List.mem_append_left _ ((List.takeWhile_sublist _).subset member)
    · exact member

theorem PartsLinked.weaken (linked : PartsLinked before rows) (more : List Row) :
    PartsLinked (before ++ more) rows := by
  induction rows generalizing before with
  | nil => exact True.intro
  | cons row rest ih =>
    obtain ⟨here, later⟩ := linked
    exact ⟨fun continues => (here continues).append more, ih later⟩

theorem partsLinked_append : PartsLinked before (rows ++ more) ↔
    PartsLinked before rows ∧ PartsLinked (rows.reverse ++ before) more := by
  induction rows generalizing before with
  | nil => simp [PartsLinked]
  | cons row rest ih => simp [PartsLinked, ih, and_assoc]

theorem Stacked.append (stacked : Stacked base rows) (stackedToo : Stacked base more) :
    Stacked base (rows ++ more) where
  first := by
    intro row isFirst
    cases rows with
    | nil => exact stackedToo.first row isFirst
    | cons first rest => exact stacked.first row isFirst
  floor := List.forall_mem_append.mpr ⟨stacked.floor, stackedToo.floor⟩
  steps := by
    apply stacked.steps.append stackedToo.steps
    intro last isLast next isNext
    have above := stacked.floor last (List.mem_of_getLast? isLast)
    rw [← stackedToo.first next isNext] at above
    exact .inl above
  filled := stacked.filled.append stackedToo.filled

namespace WellNested

theorem nil (base : Nat) : WellNested base [] where
  first := by simp
  floor := by simp
  steps := .nil
  filled := True.intro
  linked := True.intro

theorem plain (base : Nat) (text : String) : WellNested base [{ depth := base, text }] where
  first := by simp
  floor := by simp
  steps := .singleton _
  filled := ⟨by simp, True.intro⟩
  linked := ⟨by simp, True.intro⟩

theorem append (nested : WellNested base rows) (nestedToo : WellNested base more) :
    WellNested base (rows ++ more) where
  toStacked := nested.toStacked.append nestedToo.toStacked
  linked := partsLinked_append.mpr ⟨nested.linked, nestedToo.linked.weaken _⟩

end WellNested

/-- Rows that make up whole statements, of which there is one. -/
structure Speaking (base : Nat) (rows : List Row) : Prop extends WellNested base rows where
  speaks : ∃ row ∈ rows, row.isSilent = false

theorem WellNested.append_speaking (nested : WellNested base rows) (speaking : Speaking base more) :
    Speaking base (rows ++ more) where
  toWellNested := nested.append speaking.toWellNested
  speaks := by
    obtain ⟨row, member, speaks⟩ := speaking.speaks
    exact ⟨row, List.mem_append_right _ member, speaks⟩

/-- A header and the rows of statements below it. -/
inductive IsSuite (base : Nat) (keyword : Keyword) : List Row → Prop where
  | intro {text : String} {inside : List Row} (speaking : Speaking (base + 1) inside) :
      IsSuite base keyword ({ depth := base, text, header := some keyword } :: inside)

namespace IsSuite

variable {keyword : Keyword} {suite : List Row}

theorem stacked (isSuite : IsSuite base keyword suite) : Stacked base suite := by
  obtain @⟨text, inside, nested, speaks⟩ := isSuite
  have deeper : ∀ row ∈ inside, base < row.depth := nested.floor
  refine ⟨by simp, ?_, ?_, ?_, nested.filled⟩
  · intro row member
    rcases List.mem_cons.mp member with rfl | member
    · exact Nat.le_refl base
    · exact Nat.le_of_lt (deeper row member)
  · apply nested.steps.cons
    intro next isNext
    exact .inr ⟨rfl, nested.first next isNext⟩
  · intro _
    have whole : inside.takeWhile (fun row => base < row.depth) = inside :=
      List.takeWhile_eq_self_iff.mpr fun row member => decide_eq_true (deeper row member)
    simpa [whole] using speaks

theorem linked (isSuite : IsSuite base keyword suite)
    (joins : keyword.continues = true → ClosesWith base before) : PartsLinked before suite := by
  obtain ⟨nested, -⟩ := isSuite
  exact ⟨joins, nested.linked.weaken _⟩

theorem closes (isSuite : IsSuite base keyword suite) (mayContinue : keyword.mayContinue = true)
    (before : List Row) : ClosesWith base (suite.reverse ++ before) := by
  obtain @⟨text, inside, nested, -⟩ := isSuite
  refine ⟨{ depth := base, text, header := some keyword }, ?_, rfl, mayContinue⟩
  rw [List.reverse_cons, List.append_assoc, List.dropWhile_append_of_pos]
  · simp
  · intro row member
    exact decide_eq_true (nested.floor row (List.mem_reverse.mp member))

theorem wellNested (isSuite : IsSuite base keyword suite) (begins : keyword.continues = false) :
    WellNested base suite where
  toStacked := isSuite.stacked
  linked := isSuite.linked (by simp [begins])

theorem openEnded (isSuite : IsSuite base .if suite) : OpenEnded base suite where
  toWellNested := isSuite.wellNested rfl
  closes := by simpa using isSuite.closes rfl []

end IsSuite

namespace OpenEnded

variable {keyword : Keyword} {suite : List Row}

theorem append_suite (opened : OpenEnded base rows) (isSuite : IsSuite base keyword suite) :
    WellNested base (rows ++ suite) where
  toStacked := opened.toStacked.append isSuite.stacked
  linked := partsLinked_append.mpr
    ⟨opened.linked, isSuite.linked fun _ => by simpa using opened.closes⟩

theorem append_elif (opened : OpenEnded base rows) (isSuite : IsSuite base .elif suite) :
    OpenEnded base (rows ++ suite) where
  toWellNested := opened.append_suite isSuite
  closes := by
    rw [List.reverse_append]
    exact isSuite.closes rfl rows.reverse

end OpenEnded

end Row

end Retarget
