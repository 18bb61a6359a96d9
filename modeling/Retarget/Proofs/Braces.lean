import Retarget.Proofs.Writing

/-!
# Braces of a program

A line closes a level if a closing brace comes first in it, and opens one if an opening brace comes
last; `} else {` does both.
-/

namespace Retarget.Braces

open Text

def closes (line : String) : Bool :=
  beginsWith "\x7d" (trim line)

def opens (line : String) : Bool :=
  endsIn "\x7b" line

def indentation (line : String) : Nat :=
  (line.toList.takeWhile (· = ' ')).length

/-- The levels that stay open when a line closes one, unless there is none or it was opened at
another indentation. -/
def close (line : String) : List Nat → Option (List Nat)
  | [] => none
  | level :: outer => if level = indentation line then some outer else none

/-- The indentations of the open levels after a line, from the inside out. -/
def step (levels : List Nat) (line : String) : Option (List Nat) := do
  let outer ← if closes line then close line levels else some levels
  return if opens line then indentation line :: outer else outer

def scan (levels : List Nat) (lines : List String) : Option (List Nat) :=
  lines.foldlM step levels

def Balanced (lines : List String) : Prop :=
  scan [] lines = some []

instance decidableBalanced (lines : List String) : Decidable (Balanced lines) :=
  inferInstanceAs (Decidable (scan [] lines = some []))

/-- Lines that lead from some open levels to others, whatever is open around them. -/
def Turns (before after : List Nat) (lines : List String) : Prop :=
  ∀ around, scan (before ++ around) lines = some (after ++ around)

namespace Turns

variable {first second third levels : List Nat} {lines more : List String}

theorem balanced (turns : Turns [] [] lines) : Balanced lines :=
  turns []

theorem nil (levels : List Nat) : Turns levels levels [] :=
  fun _ => rfl

theorem append (turns : Turns first second lines) (turnsToo : Turns second third more) :
    Turns first third (lines ++ more) := by
  intro around
  rw [scan, List.foldlM_append]
  change ((scan (first ++ around) lines) >>= fun levels => scan levels more) = _
  rw [turns around]
  exact turnsToo around

theorem inside (turns : Turns [] [] lines) (levels : List Nat) : Turns levels levels lines :=
  fun around => turns (levels ++ around)

end Turns

section Marks

variable {text more : String} {c : Char}

def firstMark? (text : String) : Option Char :=
  (text.toList.dropWhile isBlank).head?

theorem closes_iff (text : String) : closes text = true ↔ firstMark? text = some '\x7d' := by
  rw [firstMark?, ← head?_trimChars, ← isPrefixOf_singleton, closes, beginsWith, trim,
    String.toList_ofList, String.toList_ofList]

theorem firstMark?_append (text more : String) :
    firstMark? (text ++ more) = (firstMark? text).or (firstMark? more) := by
  rw [firstMark?, String.toList_append, List.dropWhile_append, firstMark?, firstMark?]
  cases text.toList.dropWhile isBlank with
  | nil => simp
  | cons c rest => simp

def Clear (text : String) : Prop :=
  closes text = false

theorem clear_iff (text : String) : Clear text ↔ firstMark? text ≠ some '\x7d' :=
  Bool.eq_false_iff.trans (not_congr (closes_iff text))

instance decidableClear (text : String) : Decidable (Clear text) :=
  decidable_of_iff (firstMark? text ≠ some '\x7d') (clear_iff text).symm

theorem Clear.append (first : Clear text) (second : Clear more) : Clear (text ++ more) := by
  rw [clear_iff] at *
  rw [firstMark?_append]
  cases mark : firstMark? text with
  | none => simpa [mark] using second
  | some c => simpa [mark] using first

/-- A text that does not begin with a blank, and whether a closing brace comes first in it. -/
def Heads (closing : Bool) (text : String) : Prop :=
  text.toList.head?.any (!isBlank ·) = true ∧ closes text = closing

instance decidableHeads (closing : Bool) (text : String) : Decidable (Heads closing text) :=
  inferInstanceAs (Decidable (_ ∧ _))

def EndsLine (opening : Bool) (text : String) : Prop :=
  text ≠ "" ∧ opens text = opening

instance decidableEnds (opening : Bool) (text : String) : Decidable (EndsLine opening text) :=
  inferInstanceAs (Decidable (_ ∧ _))

variable {closing opening : Bool}

theorem Heads.clear (heads : Heads false text) : Clear text :=
  heads.2

theorem Heads.exists_eq_cons (heads : Heads closing text) :
    ∃ c rest, text.toList = c :: rest ∧ isBlank c = false := by
  cases start : text.toList with
  | nil => simp [Heads, start] at heads
  | cons c rest =>
    refine ⟨c, rest, rfl, ?_⟩
    simpa [start] using heads.1

theorem Heads.append (heads : Heads closing text) (more : String) :
    Heads closing (text ++ more) := by
  obtain ⟨c, rest, start, visible⟩ := heads.exists_eq_cons
  have first : firstMark? text = some c := by simp [firstMark?, start, visible]
  refine ⟨?_, ?_⟩
  · simp [start, visible]
  · rw [← heads.2, Bool.eq_iff_iff, closes_iff, closes_iff, firstMark?_append, first,
      Option.some_or]

theorem EndsLine.append (ends : EndsLine opening more) (text : String) : EndsLine opening (text ++ more) := by
  obtain ⟨nonempty, last⟩ := ends
  have filled : more.toList ≠ [] := by simpa using nonempty
  refine ⟨?_, ?_⟩
  · simp [nonempty]
  · change ['\x7b'].reverse.isPrefixOf more.toList.reverse = opening at last
    change ['\x7b'].reverse.isPrefixOf (text ++ more).toList.reverse = opening
    rw [← last, Bool.eq_iff_iff, List.reverse_singleton, isPrefixOf_singleton,
      isPrefixOf_singleton, List.head?_reverse, List.head?_reverse, String.toList_append,
      List.getLast?_append, List.getLast?_eq_some_getLast filled, Option.some_or]

theorem EndsLine.append_of_opens (ends : EndsLine false text) (others : opens more = false) :
    EndsLine false (text ++ more) := by
  by_cases empty : more = ""
  · rw [empty, String.append_empty]
    exact ends
  · exact .append ⟨empty, others⟩ text

theorem mem_of_closes {text : String} (closing : closes text = true) : '\x7d' ∈ text.toList := by
  have mark := (closes_iff text).mp closing
  exact List.dropWhile_subset _ (List.mem_of_mem_head? mark)

theorem clear_toString (n : Nat) : Clear (toString n) := by
  refine Bool.eq_false_iff.mpr fun closing => ?_
  have member := mem_of_closes closing
  rw [Nat.toString_eq_repr, Nat.toList_repr] at member
  have digit := Nat.isDigit_of_mem_toDigits (by omega) (by omega) member
  exact absurd digit (by decide)

theorem clear_toString_int (n : Int) : Clear (toString n) := by
  cases n with
  | ofNat n => exact clear_toString n
  | negSucc n =>
    have heads : Heads false "-" := by decide
    exact (heads.append _).clear

/-- The leaves that leave the braces of an output to the renderer: no name or numeral begins with a
closing brace, no statement is unsupported whose kind ends in an opening one, and there is no
comment. -/
def Admits : Leaf → Prop
  | .name text | .numeral text => Clear text
  | .source kind _ => opens kind = false
  | .remark _ => False
  | .letter _ | .text _ | .measured _ => True

instance decidableAdmits : DecidablePred Admits
  | .name text | .numeral text => inferInstanceAs (Decidable (Clear text))
  | .source kind _ => inferInstanceAs (Decidable (opens kind = false))
  | .remark _ => .isFalse not_false
  | .letter _ | .text _ | .measured _ => .isTrue True.intro

end Marks

section Rows

variable {level : Nat} {text : String} {closes? opens? : Bool}

def column (layout : Layout) (depth : Nat) : Nat :=
  (layout.indent + depth) * layout.width

theorem closes_line (layout : Layout) (depth : Nat) (text : String) :
    closes (Row.line layout { depth, text }) = closes text := by
  have blank : firstMark? (layout.margin depth) = none := by
    simp [firstMark?, Layout.margin, show isBlank ' ' = true by decide]
  rw [Row.line, Bool.eq_iff_iff, closes_iff, closes_iff, firstMark?_append, blank, Option.none_or]

theorem indentation_line (layout : Layout) (depth : Nat) (heads : Heads closes? text) :
    indentation (Row.line layout { depth, text }) = column layout depth := by
  obtain ⟨c, rest, start, visible⟩ := heads.exists_eq_cons
  have other : c ≠ ' ' := by
    rintro rfl
    exact absurd visible (by decide)
  simp [indentation, Row.line, Layout.margin, column, start, other]

/-- Rows that lead from the levels opened at some depths to others, in any layout. -/
def Nests (before after : List Nat) (rows : List Row) : Prop :=
  ∀ layout, Turns (before.map (column layout)) (after.map (column layout)) (Row.lines rows layout)

namespace Nests

variable {first second third : List Nat} {rows more : List Row}

theorem nil (levels : List Nat) : Nests levels levels [] :=
  fun _ => .nil _

theorem append (nests : Nests first second rows) (nestsToo : Nests second third more) :
    Nests first third (rows ++ more) := by
  intro layout
  rw [Row.lines_append]
  exact (nests layout).append (nestsToo layout)

theorem inside (nests : Nests [] [] rows) (levels : List Nat) : Nests levels levels rows :=
  fun layout => (nests layout).inside _

theorem line (heads : Heads closes? text) (ends : EndsLine opens? text) (levels : List Nat) :
    Nests (bif closes? then level :: levels else levels)
      (bif opens? then level :: levels else levels) [{ depth := level, text }] := by
  intro layout around
  have closed : closes (Row.line layout { depth := level, text }) = closes? := by
    rw [closes_line, heads.2]
  have opened : opens (Row.line layout { depth := level, text }) = opens? :=
    (ends.append (layout.margin level)).2
  have place := indentation_line layout level heads
  cases closes? <;> cases opens? <;>
    simp [scan, step, close, Row.lines, closed, opened, place]

theorem plain (clear : Clear text) (ends : EndsLine false text) (levels : List Nat) :
    Nests levels levels [{ depth := level, text }] := by
  intro layout around
  have closed : closes (Row.line layout { depth := level, text }) = false := by
    rw [closes_line, clear]
  have opened : opens (Row.line layout { depth := level, text }) = false :=
    (ends.append (layout.margin level)).2
  simp [scan, step, Row.lines, closed, opened]

end Nests

end Rows

end Retarget.Braces
