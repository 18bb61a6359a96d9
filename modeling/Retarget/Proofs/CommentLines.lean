import Mathlib.Data.List.Chain
import Retarget.Conversion.Basic
import Retarget.Proofs.CodeWords
import Retarget.Proofs.Following

/-!
# Comments that end where they should

A comment written in C must not take in the code behind it. Between marks it never does. Behind two
slashes it does where its text ends in a backslash, which joins the next line to it.
-/

namespace Retarget

open Text

/-- No star is directly followed by a slash. -/
def Unclosed (cs : List Char) : Prop :=
  cs.IsChain fun c next => c = '*' → next ≠ '/'

/-- A comment of the source: what follows two slashes, or the text up to the first closing mark. -/
inductive IsComment : String → Prop where
  | line (rest : String) : IsComment ("//" ++ rest)
  | block {inner : String} (unclosed : Unclosed inner.toList) : IsComment ("/*" ++ inner ++ "*/")

/-- A backslash at the end of a line joins the next line to it. -/
def JoinsNext (line : String) : Prop :=
  line.toList.getLast? = some '\\'

def Slashed (line : String) : Prop :=
  ∃ margin text, line.toList = List.replicate margin ' ' ++ '/' :: '/' :: text

/-- Lines that are comments and no more: each behind two slashes with no backslash at its end, or
all from an opening mark to the first closing one. -/
inductive Shut (lines : List String) : Prop where
  | marked (each : ∀ line ∈ lines, Slashed line ∧ ¬JoinsNext line)
  | between (margin : Nat) (inside : List Char) (unclosed : Unclosed inside) (whole :
      lineChars lines = List.replicate margin ' ' ++ ['/', '*'] ++ inside ++ ['*', '/', '\n'])

theorem joinsNext_append {front : String} (other : ¬JoinsNext front) (text : String) :
    JoinsNext (front ++ text) ↔ JoinsNext text := by
  rw [JoinsNext, JoinsNext, String.toList_append, List.getLast?_append]
  cases text.toList.getLast? with
  | none => simpa [JoinsNext] using other
  | some c => rfl

namespace Unclosed

theorem separated {c : Char} {first second : List Char} (other : c ≠ '*' ∧ c ≠ '/')
    (unclosed : Unclosed first) (unclosedToo : Unclosed second) : Unclosed (first ++ c :: second) :=
  List.isChain_append.mpr ⟨unclosed, unclosedToo.cons (by simp [other.1]), by simp [other.2]⟩

theorem lineChars {lines : List String} (each : ∀ line ∈ lines, Unclosed line.toList)
    {tail : List Char} (unclosed : Unclosed tail) : Unclosed (lineChars lines ++ tail) := by
  induction lines with
  | nil => exact unclosed
  | cons line lines ih =>
    obtain ⟨first, others⟩ := List.forall_mem_cons.mp each
    simpa [Retarget.lineChars] using first.separated (by decide) (ih others)

theorem margin (layout : Layout) {rest : List Char} (unclosed : Unclosed rest) :
    Unclosed ((layout.margin 0).toList ++ ' ' :: rest) := by
  rw [Layout.margin, String.toList_ofList]
  exact separated (by decide) (List.isChain_replicate_of_rel _ (by decide)) unclosed

end Unclosed

theorem Lexeme.isInfix_commentLine (line : String) :
    (commentLine line).toList <:+: line.toList := by
  have trimmed : (trim line).toList <:+: line.toList := by
    rw [trim, String.toList_ofList]
    exact isInfix_trimmed isBlank _
  unfold commentLine
  dsimp only
  split
  next rest found =>
    obtain ⟨cs, after, rfl⟩ := Option.map_eq_some_iff.mp found
    have tail : cs <:+ (trim line).toList := ⟨_, append_of_after? after⟩
    rw [trimStart, String.toList_ofList, String.toList_ofList]
    exact ((List.dropWhile_suffix _).trans tail).isInfix.trans trimmed
  next => exact trimmed

/-- The text of a block comment is put together from parts of its lines. -/
theorem IsComment.unclosed {token : String} (isComment : IsComment token)
    (isBlock : (Lexeme.comment token).isBlock = true) :
    Unclosed (Lexeme.comment token).text.toList := by
  cases isComment with
  | line rest => simp [Lexeme.comment, afterStart?, after?] at isBlock
  | @block inner unclosed =>
    have text : (Lexeme.comment ("/*" ++ inner ++ "*/")).text = join "\n" (dropTailWhile
        String.isEmpty (((lines inner).map Lexeme.commentLine).dropWhile String.isEmpty)) := by
      simp [Lexeme.comment, afterStart?, beforeEnd?, after?]
    have parts (part : String) (member : part ∈ dropTailWhile String.isEmpty
        (((lines inner).map Lexeme.commentLine).dropWhile String.isEmpty)) :
        Unclosed part.toList := by
      obtain ⟨line, found, rfl⟩ := List.mem_map.mp ((isInfix_trimmed _ _).subset member)
      exact List.IsChain.infix unclosed
        ((Lexeme.isInfix_commentLine line).trans (infix_of_mem_lines found))
    rw [text]
    generalize dropTailWhile _ _ = kept at parts
    cases kept with
    | nil => exact .nil
    | cons part kept =>
      refine @join_cons (Unclosed ·.toList) (Unclosed ·.toList) _ (fun _ unclosed => unclosed) ?_ _
        _ parts
      intro text rest unclosed unclosedToo
      simpa using unclosed.separated (by decide) unclosedToo

/-- The lines of a comment in C. Those of a block are shut; all others stand behind two slashes, and
one of them joins the next line to it just if a line of the comment does. -/
structure CommentWritten (comment : Comment) (lines : List String) : Prop where
  block : comment.isBlock = true → Shut lines
  line : comment.isBlock = false → (∀ line ∈ lines, Slashed line) ∧
    ((∃ line ∈ lines, JoinsNext line) ↔ ∃ part ∈ Text.lines comment.text, JoinsNext part)

namespace C

variable {cx : Context}

theorem slashed_line (layout : Layout) (part : String) :
    let line := Row.line layout { depth := 0, text := Render.commentText "//" part }
    Slashed line ∧ (JoinsNext line ↔ JoinsNext part) := by
  rw [Row.line, Render.commentText]
  split
  next empty =>
    rw [String.isEmpty_iff.mp empty]
    exact ⟨⟨_, [], by simp [Layout.margin]; rfl⟩, by simp [JoinsNext]⟩
  next =>
    refine ⟨⟨_, ' ' :: part.toList, by simp [Layout.margin]; rfl⟩, ?_⟩
    rw [← String.append_assoc]
    exact joinsNext_append (by simp [JoinsNext]) part

theorem commentLines_laidOut (comment : Comment) (preserved : cx.settings.preserveComments = true) :
    LaidOut cx (commentLines comment) fun lines => lines ≠ [] ∧
      ((comment.isBlock = true → Unclosed comment.text.toList) → CommentWritten comment lines) := by
  have slashed (notBlock : ¬comment.isBlock = true) (some : lines comment.text ≠ []) :
      LaidOut cx (Render.commentLines "//" comment.text) fun lines => lines ≠ [] ∧
        ((comment.isBlock = true → Unclosed comment.text.toList) →
          CommentWritten comment lines) := by
    refine (LaidOut.lines _ _).mono ?_
    rintro _ rfl
    refine ⟨List.map_eq_nil_iff.not.mpr some, fun _ => ⟨fun isBlock => absurd isBlock notBlock,
      fun _ => ⟨List.forall_mem_map.mpr fun part _ => (slashed_line _ part).1, ?_⟩⟩⟩
    simp only [List.mem_map, exists_exists_and_eq_and, (slashed_line _ _).2]
  have closed {part : String} (unclosed : Unclosed comment.text.toList)
      (member : part ∈ lines comment.text) : Unclosed part.toList :=
    List.IsChain.infix unclosed (infix_of_mem_lines member)
  refine LaidOut.settings.bind ?_
  rintro _ rfl
  rw [if_neg (by simp [preserved])]
  split
  next none =>
    refine (LaidOut.line "//").bind ?_
    rintro _ rfl
    have facts : Slashed (Row.line cx.layout { depth := 0, text := "//" }) ∧
        (JoinsNext (Row.line cx.layout { depth := 0, text := "//" }) ↔ JoinsNext "") :=
      slashed_line cx.layout ""
    have plain : ¬JoinsNext "" := by simp [JoinsNext]
    refine .pure ⟨List.cons_ne_nil _ _, fun _ => ⟨fun _ => .marked ?_, fun _ => ?_⟩⟩
    · simp [facts, plain]
    · simp [none, facts, plain]
  next single parted =>
    split
    next isBlock =>
      refine (LaidOut.line _).bind ?_
      rintro _ rfl
      refine .pure ⟨List.cons_ne_nil _ _, fun unclosed =>
        ⟨fun _ => ?_, fun notBlock => by simp [isBlock] at notBlock⟩⟩
      have part := closed (unclosed isBlock) (parted ▸ List.mem_singleton_self single)
      have inside : Unclosed (' ' :: (single.toList ++ [' '])) :=
        .separated (by decide) .nil (part.separated (by decide) .nil)
      exact .between _ _ inside (by simp [lineChars, Row.line, Layout.margin]; rfl)
    next notBlock => exact slashed notBlock (parted ▸ List.cons_ne_nil _ _)
  next some _ =>
    split
    next isBlock =>
      refine (LaidOut.line "/*").bind ?_
      rintro _ rfl
      refine (LaidOut.lines _ _).bind ?_
      rintro _ rfl
      refine (LaidOut.line " */").bind ?_
      rintro _ rfl
      refine .pure ⟨List.cons_ne_nil _ _, fun unclosed =>
        ⟨fun _ => ?_, fun notBlock => by simp [isBlock] at notBlock⟩⟩
      have rows : ∀ line ∈ (lines comment.text).map fun part =>
          Row.line cx.layout { depth := 0, text := Render.commentText " *" part },
          Unclosed line.toList := by
        refine List.forall_mem_map.mpr fun part member => ?_
        have star := Unclosed.margin cx.layout (.singleton '*')
        rw [Row.line, Render.commentText]
        split
        · simpa using star
        · simpa using star.separated (by decide) (closed (unclosed isBlock) member)
      have inside : Unclosed ('\n' :: _) :=
        .separated (by decide) .nil (.lineChars rows (.margin cx.layout .nil))
      exact .between _ _ inside (by simp [lineChars, Row.line, Layout.margin]; rfl)
    next notBlock => exact slashed notBlock some

end C

/-- In C a comment on lines of its own that stood between marks takes in no code, and one behind two
slashes takes in the next line just if its text ends in a backslash. So does any comment behind a
statement. -/
theorem comment_shut_or_joined {token : String} (isComment : IsComment token) {cx after : Context}
    (preserved : cx.settings.preserveComments = true) {lines : List String} :
    let comment := Lexeme.comment token
    let text := join " " (Text.lines comment.text)
    ((Target.c.renderStatement none (.comment comment)).run cx = .ok (lines, after) →
      CommentWritten comment lines) ∧
    ∀ given last,
      (Conversion.withTrailing .c comment (given ++ [last])).run cx = .ok (lines, after) →
      lines = given ++ [last ++ " // " ++ text] ∧
        (JoinsNext (last ++ " // " ++ text) ↔ JoinsNext text) := by
  intro comment text
  constructor
  · intro ends
    have laidOut := C.commentLines_laidOut comment preserved
    have settled : (Target.c.renderStatement none (.comment comment)).run cx =
        ((C.commentLines comment).outcome cx).map fun lines => (lines, cx) :=
      laidOut.settle_run (fun _ facts => facts.1) rfl rfl
    cases comes : (C.commentLines comment).outcome cx with
    | error fault =>
      rw [settled, comes] at ends
      cases ends
    | ok found =>
      rw [settled, comes] at ends
      cases ends
      exact (laidOut.holds_outcome comes).2 isComment.unclosed
  · intro given last ends
    unfold Conversion.withTrailing at ends
    rw [List.getLast?_concat] at ends
    obtain ⟨_, _, read, ends⟩ := Render.bind_eq_ok.mp ends
    cases read
    rw [if_pos preserved, List.dropLast_concat] at ends
    cases ends
    exact ⟨by rw [String.append_assoc]; rfl, joinsNext_append (by simp [JoinsNext]) text⟩

/-- A comment of several lines, one with a star and a slash apart and one with a backslash at its
end, is shut on lines of its own. -/
theorem comment_shut_or_joined_block :
    let token := "/*" ++ "*\n * a * /\n * b \\\n " ++ "*/"
    IsComment token ∧ ∃ lines after,
      (Target.c.renderStatement none (.comment (Lexeme.comment token))).run
        { target := .c, indent := 1 } = .ok (lines, after) ∧
      lines = ["    /*", "     * a * /", "     * b \\", "     */"] ∧ Shut lines := by
  intro token
  have isComment : IsComment token := .block (by unfold Unclosed; decide)
  have ends : ∃ lines after, (Target.c.renderStatement none (.comment (Lexeme.comment token))).run
      { target := .c, indent := 1 } = .ok (lines, after) ∧
      lines = ["    /*", "     * a * /", "     * b \\", "     */"] := by decide +kernel
  obtain ⟨lines, after, ends, written⟩ := ends
  exact ⟨isComment, lines, after, ends, written,
    ((comment_shut_or_joined isComment rfl).1 ends).block (by decide +kernel)⟩

/-- A path at the end of a comment takes in the next line, also behind a statement and from a block
comment. -/
theorem comment_takes_next_line :
    (∃ lines after, (Target.c.renderStatement none (.comment (Lexeme.comment "// path C:\\"))).run
      { target := .c } = .ok (lines, after) ∧ lines = ["// path C:\\"]) ∧
    JoinsNext "// path C:\\" ∧
    (∃ lines after, (Conversion.withTrailing .c (Lexeme.comment "/* path C:\\ */") ["x = 1;"]).run
      { target := .c } = .ok (lines, after) ∧ lines = ["x = 1; // path C:\\"]) ∧
    JoinsNext "x = 1; // path C:\\" := by
  unfold JoinsNext
  decide +kernel

end Retarget
