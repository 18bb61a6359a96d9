import Mathlib.Data.List.Basic
import Retarget.Conversion.Item
import Retarget.Conversion.Tidy
import Retarget.Proofs.Text

/-!
# Blank lines

The items of a body hold its named children, each once and in order, and the blank rows between
them. A list of lines is told by its solid lines, those with a character that is not blank, and by
the number of blank lines before each of them.
-/

namespace Retarget.Item

variable {cap : Nat} {previous : Option Nat} {node : Node}

/-- The nodes of an item, each with whether it is the comment at the end of a statement's row. -/
def parts : Item → List (Node × Bool)
  | blank _ => []
  | comment node | statement node none => [(node, false)]
  | statement node (some trailing) => [(node, false), (trailing, true)]

def isSolid : Item → Bool
  | blank _ => false
  | comment _ | statement .. => true

def firstRow : Item → Nat
  | blank _ => 0
  | comment node | statement node _ => node.firstRow

def lastRow : Item → Nat
  | blank _ => 0
  | comment node | statement node none => node.lastRow
  | statement _ (some trailing) => trailing.lastRow

/-- Each node with whether it is a comment that begins on the last row of a statement directly
before it. -/
def flagged : Option Node → List Node → List (Node × Bool)
  | _, [] => []
  | before, node :: rest =>
    (node, before.any fun stmt =>
      !stmt.isComment && node.isComment && node.firstRow = stmt.lastRow) ::
        flagged (some node) rest

theorem flagged_cons (before : Option Node) (node : Node) (rest : List Node) :
    flagged before (node :: rest) =
      (node, before.any (endsRowOf · node)) :: flagged (some node) rest :=
  rfl

/-- The rows between row `row` and an item, cut down to `cap`, as a gap if there are any. -/
def between (cap row : Nat) (item : Item) : List Item :=
  let count := min (item.firstRow - (row + 1)) cap
  if count = 0 then [] else [blank count]

/-- The items with a gap between one and the next wherever there are rows between them. -/
def spread (cap : Nat) : Option Nat → List Item → List Item
  | _, [] => []
  | previous, item :: rest =>
    (previous.map (between cap · item)).getD [] ++ item :: spread cap (some item.lastRow) rest

theorem map_fst_flagged (before : Option Node) (nodes : List Node) :
    (flagged before nodes).map Prod.fst = nodes := by
  induction nodes generalizing before with
  | nil => rfl
  | cons node rest ih => exact congrArg (node :: ·) (ih (some node))

theorem gap_hollow (cap : Nat) (previous : Option Nat) (node : Node) :
    (gap cap previous node).flatMap parts = [] ∧ (gap cap previous node).filter isSolid = [] := by
  cases previous with
  | none => exact ⟨rfl, rfl⟩
  | some row =>
    simp only [gap]
    split <;> exact ⟨rfl, rfl⟩

theorem parts_single (node : Node) : (single node).parts = [(node, false)] := by
  unfold single
  split <;> rfl

theorem parts_listFrom (nodes : List Node) (before : Option Node)
    (apart : ∀ node ∈ nodes.head?, before.any (endsRowOf · node) = false) :
    (listFrom cap previous nodes).flatMap parts = flagged before nodes := by
  fun_induction listFrom cap previous nodes generalizing before with
  | case1 => rfl
  | case2 previous node =>
    simp [flagged_cons, flagged.eq_1, gap_hollow, parts_single, apart node rfl]
  | case3 previous node next rest ends ih =>
    -- The second node is a comment, which ends no row of a statement itself.
    have isComment : next.isComment = true := by
      simp only [endsRowOf, Bool.and_eq_true] at ends
      exact ends.1.2
    have later := ih (some next) fun _ _ => by simp [endsRowOf, isComment]
    simp [flagged_cons, gap_hollow, parts, apart node rfl, ends, later]
  | case4 previous node next rest free ih =>
    have later := ih (some node) fun other found => by
      cases found
      simpa using free
    simp [flagged_cons, gap_hollow, parts_single, apart node rfl, later]

theorem mem_of_statement {nodes : List Node} {trailing : Option Node}
    (member : .statement node trailing ∈ listFrom cap previous nodes) : node ∈ nodes := by
  have part : (node, false) ∈ (listFrom cap previous nodes).flatMap parts :=
    List.mem_flatMap.mpr ⟨_, member, by cases trailing <;> simp [parts]⟩
  rw [parts_listFrom nodes none fun _ _ => rfl] at part
  rw [← map_fst_flagged none nodes]
  exact List.mem_map_of_mem part

theorem gap_eq (item : Item) (same : item.firstRow = node.firstRow) :
    gap cap previous node = (previous.map (between cap · item)).getD [] := by
  cases previous with
  | none => rfl
  | some row => simp [gap, between, same]

theorem single_rows (node : Node) : (single node).isSolid = true ∧
    (single node).firstRow = node.firstRow ∧ (single node).lastRow = node.lastRow := by
  unfold single
  split <;> exact ⟨rfl, rfl, rfl⟩

theorem spread_cons {item : Item} {later : List Item} (solid : item.isSolid = true)
    (first : item.firstRow = node.firstRow)
    (rest : later = spread cap (some item.lastRow) (later.filter isSolid)) :
    gap cap previous node ++ item :: later =
      spread cap previous ((gap cap previous node ++ item :: later).filter isSolid) := by
  rw [List.filter_append, (gap_hollow ..).2, List.nil_append, List.filter_cons_of_pos solid, spread,
    ← gap_eq item first, ← rest]

theorem listFrom_eq_spread (cap : Nat) (previous : Option Nat) (nodes : List Node) :
    listFrom cap previous nodes =
      spread cap previous ((listFrom cap previous nodes).filter isSolid) := by
  fun_induction listFrom cap previous nodes with
  | case1 => rfl
  | case2 previous node =>
    obtain ⟨solid, first, -⟩ := single_rows node
    exact spread_cons solid first rfl
  | case3 previous node next rest _ ih => exact spread_cons rfl rfl ih
  | case4 previous node next rest _ ih =>
    obtain ⟨solid, first, last⟩ := single_rows node
    exact spread_cons solid first (last ▸ ih)

theorem blank_of_mem_spread {count : Nat} {items : List Item}
    (member : blank count ∈ spread cap previous items) (solid : items.all isSolid = true) :
    1 ≤ count ∧ count ≤ cap := by
  induction items generalizing previous with
  | nil => cases member
  | cons item rest ih =>
    rw [List.all_cons, Bool.and_eq_true] at solid
    rcases List.mem_append.mp member with gap | later
    · cases previous with
      | none => cases gap
      | some row =>
        rw [Option.map_some, Option.getD_some, between] at gap
        split at gap
        · cases gap
        · cases List.mem_singleton.mp gap
          omega
    · rcases List.mem_cons.mp later with rfl | later
      · cases solid.1
      · exact ih later solid.2

/-- The items of a body are its named children in order. A comment belongs to the statement before
it exactly if it begins on the last row of that statement, which is the child directly before it.
Between one item and the next stands a gap of as many rows as there are between them, up to the cap,
and no gap where there are none; nothing stands before the first and after the last. -/
theorem listOf_conserves (cap : Nat) (body : Node) :
    let items := listOf cap body
    (items.flatMap parts).map Prod.fst = body.namedChildren ∧
      items.flatMap parts = flagged none body.namedChildren ∧
      items = spread cap none (items.filter isSolid) ∧
      ∀ count, blank count ∈ items → 1 ≤ count ∧ count ≤ cap := by
  have flags : (listOf cap body).flatMap parts = flagged none body.namedChildren :=
    parts_listFrom _ none fun _ _ => rfl
  have spreads := listFrom_eq_spread cap none body.namedChildren
  refine ⟨by rw [flags, map_fst_flagged], flags, spreads, fun count member => ?_⟩
  rw [listOf, spreads] at member
  exact blank_of_mem_spread member (List.all_eq_true.mpr fun _ found => (List.mem_filter.mp found).2)

end Retarget.Item

/-! ## Tidy programs -/

namespace Retarget.Text

variable {cap run : Nat} {rows : List String}

def isSolid (line : String) : Bool :=
  !isBlankText line

/-- Each solid line with the number of blank lines since the one before it; `run` blank lines stand
before the first of the lines. -/
def spacedFrom (run : Nat) : List String → List (Nat × String)
  | [] => []
  | line :: rest =>
    if isBlankText line then spacedFrom (run + 1) rest else (run, line) :: spacedFrom 0 rest

/-- The lines, each below as many empty ones as stand before it. -/
def setOut (spaced : List (Nat × String)) : List String :=
  spaced.flatMap fun entry => List.replicate entry.1 "" ++ [entry.2]

def capped (cap : Nat) (entry : Nat × String) : Nat × String :=
  (min entry.1 cap, entry.2)

/-- Solid lines after which no more than `cap` blank ones stand, and none before the first. -/
def tidied (cap : Nat) : List (Nat × String) → List (Nat × String)
  | [] => []
  | first :: rest => (0, first.2) :: rest.map (capped cap)

theorem map_snd_spacedFrom (run : Nat) (rows : List String) :
    (spacedFrom run rows).map Prod.snd = rows.filter isSolid := by
  induction rows generalizing run with
  | nil => rfl
  | cons line rest ih => cases blank : isBlankText line <;> simp [spacedFrom, isSolid, blank, ih]

theorem spacedFrom_setOut {spaced : List (Nat × String)}
    (solid : ∀ entry ∈ spaced, isBlankText entry.2 = false) :
    spacedFrom 0 (setOut spaced) = spaced := by
  have skip (count run : Nat) (rest : List String) :
      spacedFrom run (List.replicate count "" ++ rest) = spacedFrom (run + count) rest := by
    induction count generalizing run with
    | zero => rfl
    | succ count ih =>
      rw [List.replicate_succ, List.cons_append, spacedFrom, if_pos (by decide), ih]
      congr 1
      omega
  induction spaced with
  | nil => rfl
  | cons entry rest ih =>
    obtain ⟨first, others⟩ := List.forall_mem_cons.mp solid
    have unfolded : setOut (entry :: rest) =
        List.replicate entry.1 "" ++ entry.2 :: setOut rest := by simp [setOut]
    rw [unfolded, skip, spacedFrom, if_neg (by simp [first]), ih others, Nat.zero_add]

/-- Behind `run` blank lines, of which those up to the cap are kept, the rest is set out with its
gaps cut down; only blank lines may follow. -/
theorem capBlanks_eq (cap run : Nat) (rows : List String) : ∃ count,
    List.replicate (min run cap) "" ++ capBlanks cap (min run cap) rows =
      setOut ((spacedFrom run rows).map (capped cap)) ++ List.replicate count "" := by
  induction rows generalizing run with
  | nil => exact ⟨min run cap, by simp [capBlanks, spacedFrom, setOut]⟩
  | cons line rest ih =>
    cases blank : isBlankText line with
    | true =>
      obtain ⟨count, same⟩ := ih (run + 1)
      refine ⟨count, ?_⟩
      rw [spacedFrom, if_pos blank, ← same, capBlanks, if_pos blank]
      by_cases fits : min run cap < cap
      · have next : min (run + 1) cap = min run cap + 1 := by omega
        rw [if_pos fits, next, List.replicate_succ', List.append_assoc, List.singleton_append]
      · have next : min (run + 1) cap = min run cap := by omega
        rw [if_neg fits, next]
    | false =>
      obtain ⟨count, same⟩ := ih 0
      rw [Nat.zero_min, List.replicate_zero, List.nil_append] at same
      refine ⟨count, ?_⟩
      rw [spacedFrom, if_neg (by simp [blank]), capBlanks, if_neg (by simp [blank]), same]
      simp [setOut, capped]

theorem getLast?_setOut (spaced : List (Nat × String)) :
    (setOut spaced).getLast? = spaced.getLast?.map Prod.snd := by
  rcases List.eq_nil_or_concat spaced with rfl | ⟨before, last, rfl⟩
  · rfl
  · simp [setOut]

theorem dropTailWhile_append {α : Type} {p : α → Bool} {xs ys : List α}
    (all : ∀ y ∈ ys, p y = true) (last : ∀ x ∈ xs.getLast?, p x = false) :
    dropTailWhile p (xs ++ ys) = xs := by
  rw [dropTailWhile, List.reverse_append, List.dropWhile_append_of_pos (by simpa using all)]
  rw [← List.head?_reverse] at last
  cases reversed : xs.reverse with
  | nil => exact (List.reverse_eq_nil_iff.mp reversed).symm
  | cons x rest =>
    rw [reversed] at last
    rw [List.dropWhile_cons_of_neg (by simp [last x rfl]), ← reversed, List.reverse_reverse]

theorem map_snd_tidied (cap : Nat) (spaced : List (Nat × String)) :
    (tidied cap spaced).map Prod.snd = spaced.map Prod.snd := by
  cases spaced with
  | nil => rfl
  | cons first rest => simp [tidied, capped]

theorem isSolid_of_mem_tidied {entry : Nat × String}
    (member : entry ∈ tidied cap (spacedFrom 0 rows)) : isBlankText entry.2 = false := by
  have kept : entry.2 ∈ rows.filter isSolid := by
    rw [← map_snd_spacedFrom 0, ← map_snd_tidied cap]
    exact List.mem_map_of_mem member
  simpa [isSolid] using (List.mem_filter.mp kept).2

theorem capBlanks_dropWhile (cap run : Nat) (rows : List String) : ∃ count,
    capBlanks cap 0 (rows.dropWhile isBlankText) =
      setOut (tidied cap (spacedFrom run rows)) ++ List.replicate count "" := by
  induction rows generalizing run with
  | nil => exact ⟨0, rfl⟩
  | cons line rest ih =>
    cases blank : isBlankText line with
    | true =>
      rw [List.dropWhile_cons_of_pos blank, spacedFrom, if_pos blank]
      exact ih (run + 1)
    | false =>
      obtain ⟨count, same⟩ := capBlanks_eq cap 0 rest
      rw [Nat.zero_min, List.replicate_zero, List.nil_append] at same
      refine ⟨count, ?_⟩
      have solid : ¬isBlankText line = true := by simp [blank]
      rw [List.dropWhile_cons_of_neg solid, spacedFrom, if_neg solid, capBlanks, if_neg solid, same]
      rfl

theorem tidyLines_eq (cap : Nat) (rows : List String) :
    tidyLines cap rows = setOut (tidied cap (spacedFrom 0 rows)) := by
  obtain ⟨count, kept⟩ := capBlanks_dropWhile cap 0 rows
  rw [tidyLines, kept]
  refine dropTailWhile_append (fun line member => ?_) fun line found => ?_
  · rw [List.eq_of_mem_replicate member]
    decide
  · rw [getLast?_setOut] at found
    obtain ⟨entry, last, rfl⟩ := Option.map_eq_some_iff.mp found
    exact isSolid_of_mem_tidied (List.mem_of_getLast? last)

section Tidy

variable {code : String}

theorem isLine_of_mem_lines (plain : '\r' ∉ code.toList) {line : String}
    (member : line ∈ lines code) : IsLine line :=
  ⟨not_mem_of_mem_lines member, fun last =>
    plain ((infix_of_mem_lines member).subset (List.mem_of_getLast? last))⟩

theorem mem_of_mem_setOut {spaced : List (Nat × String)} {line : String}
    (member : line ∈ setOut spaced) : line = "" ∨ line ∈ spaced.map Prod.snd := by
  obtain ⟨entry, inside, found⟩ := List.mem_flatMap.mp member
  rcases List.mem_append.mp found with blank | own
  · exact .inl (List.eq_of_mem_replicate blank)
  · exact .inr (List.mem_singleton.mp own ▸ List.mem_map_of_mem inside)

/-- The lines of a tidy program, unless there is no solid one. -/
theorem lines_tidy (cap : Nat) (plain : '\r' ∉ code.toList)
    (some : spacedFrom 0 (lines code) ≠ []) :
    lines (tidy cap code) = setOut (tidied cap (spacedFrom 0 (lines code))) := by
  have nonempty : setOut (tidied cap (spacedFrom 0 (lines code))) ≠ [] := by
    cases spaced : spacedFrom 0 (lines code) with
    | nil => exact absurd spaced some
    | cons first rest => exact List.cons_ne_nil _ _
  have each : ∀ line ∈ setOut (tidied cap (spacedFrom 0 (lines code))), IsLine line := by
    intro line member
    rcases mem_of_mem_setOut member with rfl | kept
    · decide
    · rw [map_snd_tidied, map_snd_spacedFrom] at kept
      exact isLine_of_mem_lines plain (List.mem_filter.mp kept).1
  rw [tidy, tidyLines_eq, lines_join nonempty,
    List.flatMap_congr fun line member => linesFrom_isLine (each line member)]
  exact List.flatMap_singleton' _

theorem tidied_tidied (cap : Nat) (spaced : List (Nat × String)) :
    tidied cap (tidied cap spaced) = tidied cap spaced := by
  cases spaced with
  | nil => rfl
  | cons first rest => simp [tidied, capped]

/-- Tidying touches blank lines only. The solid lines stay as they are and in order; with their gaps
they are those of the text, none before the first and the others cut down to the cap. The result is
these lines set out, so its blank lines are empty, none stands at either end, and one line feed ends
it; without a solid line it is that line feed. Tidying it again changes nothing. -/
theorem tidy_cuts_gaps (cap : Nat) (code : String) (plain : '\r' ∉ code.toList) :
    let spaced := spacedFrom 0 (lines (tidy cap code))
    spaced.map Prod.snd = (lines code).filter isSolid ∧
      spaced = tidied cap (spacedFrom 0 (lines code)) ∧
      tidy cap code = join "\n" (setOut spaced) ++ "\n" ∧
      tidy cap (tidy cap code) = tidy cap code := by
  have solid : ∀ entry ∈ tidied cap (spacedFrom 0 (lines code)), isBlankText entry.2 = false :=
    fun _ => isSolid_of_mem_tidied
  have spaced : spacedFrom 0 (lines (tidy cap code)) = tidied cap (spacedFrom 0 (lines code)) := by
    by_cases none : spacedFrom 0 (lines code) = []
    · rw [tidy, tidyLines_eq, none]
      have empty : spacedFrom 0 (lines "\n") = [] := by decide
      exact empty
    · rw [lines_tidy cap plain none, spacedFrom_setOut solid]
  refine ⟨?_, spaced, ?_, ?_⟩
  · rw [spaced, map_snd_tidied, map_snd_spacedFrom]
  · rw [spaced, ← tidyLines_eq, ← tidy]
  · rw [tidy, tidyLines_eq, spaced, tidied_tidied, ← tidyLines_eq, ← tidy]

/-- Of three blank lines between two solid ones, one is left. -/
theorem tidy_cuts_gaps_to_one :
    let code := "\n\na\n\n\n \nb\n\n"
    '\r' ∉ code.toList ∧ spacedFrom 0 (lines code) = [(2, "a"), (3, "b")] ∧
      spacedFrom 0 (lines (tidy 1 code)) = [(0, "a"), (1, "b")] ∧ tidy 1 code = "a\n\nb\n" ∧
      tidy 1 (tidy 1 code) = tidy 1 code := by
  intro code
  have plain : '\r' ∉ code.toList := by decide
  exact ⟨plain, by decide, (tidy_cuts_gaps 1 code plain).2.1.trans (by decide), by decide,
    (tidy_cuts_gaps 1 code plain).2.2.2⟩

end Tidy

end Retarget.Text
