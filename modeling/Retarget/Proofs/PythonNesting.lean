import Retarget.Proofs.PythonStmtWriting
import Retarget.Proofs.Wording

/-!
# Python output is well nested

The lines of a Python statement are the rows of a well nested block in the layout of the context:
each is indented by whole levels, headers and only headers open a level, every suite holds a
statement, and the parts of a conditional stand together.
-/

namespace Retarget

variable {digits : String} {admits : Leaf → Prop} {keyword : Keyword}

namespace Text

variable {first second text : String}

theorem unbroken_of_subset (unbroken : Unbroken second)
    (subset : ∀ c ∈ first.toList, c ∈ second.toList) : Unbroken first :=
  fun member => unbroken (subset _ member)

theorem endsPlainly_append_right (first : String) (filled : second.toList ≠ [])
    (ends : EndsPlainly second) : EndsPlainly (first ++ second) := by
  rw [EndsPlainly, String.toList_append, List.getLast?_append_of_ne_nil _ filled]
  exact ends

theorem unbroken_quoted : Unbroken (quoted text) ↔ Unbroken text := by
  have quote : Unbroken "\"" := by decide
  simp [quoted, unbroken_append, quote]

theorem worded_quoted (text : String) : Worded (quoted text) where
  begins := (BeginsPlainly.append (by decide) text).append _
  ends := endsPlainly_append_right _ (by decide) (by decide)

end Text

namespace Python

open Text

variable {caps : Caps} {text : String}

section Unbroken

theorem unbroken_integerText (unbroken : Unbroken digits) : Unbroken (integerText digits) := by
  unfold integerText
  split
  next c cs same =>
    split
    · apply unbroken_append.mpr
      refine ⟨by decide, unbroken_of_subset unbroken fun other member => ?_⟩
      rw [same]
      rw [String.toList_ofList] at member
      exact List.mem_cons_of_mem _ member
    · exact unbroken
  next => exact unbroken

theorem unbroken_decimalText (unbroken : Unbroken digits) : Unbroken (decimalText digits) := by
  unfold decimalText
  dsimp only
  split
  · exact unbroken
  · apply unbroken_append.mpr
    constructor
    · apply unbroken_append.mpr
      refine ⟨?_, unbroken⟩
      split <;> decide
    · split
      · decide
      · split <;> decide

theorem unbroken_int (n : Int) : Unbroken (toString n) := by
  cases n with
  | ofNat n => exact unbroken_toString n
  | negSucc n => exact unbroken_append.mpr ⟨by decide, unbroken_toString (n + 1)⟩

theorem spellInPython_cases (table : SymbolTable) (name : String) :
    Degraded.spellInPython table name ∈ ownTexts ∨
      Degraded.spellInPython table name = table.targetName name := by
  unfold Degraded.spellInPython
  split
  · exact .inl (by decide)
  · exact .inl (by decide)
  · exact .inl (by decide)
  · exact .inr rfl

theorem Spelled.unbroken (clean : ∀ leaf, admits leaf → leaf.Unbroken)
    (spelled : Spelled admits caps text) : Unbroken text := by
  induction spelled with
  | own known =>
    have all : ∀ text ∈ ownTexts, Unbroken text := by decide +kernel
    exact all _ known
  | name fine => exact clean _ fine _ List.mem_cons_self
  | integer fine => exact unbroken_integerText (clean _ fine _ List.mem_cons_self)
  | decimal fine => exact unbroken_decimalText (clean _ fine _ List.mem_cons_self)
  | number n => exact unbroken_int n
  | letter fine =>
    have body := clean _ fine _ List.mem_cons_self
    exact unbroken_append.mpr ⟨unbroken_append.mpr ⟨by decide, body⟩, by decide⟩
  | text fine => exact unbroken_quoted.mpr (clean _ fine _ List.mem_cons_self)
  | @label body fine =>
    apply unbroken_quoted.mpr
    apply unbroken_of_subset (clean _ fine _ List.mem_cons_self)
    intro c member
    rw [String.toList_ofList] at member
    exact (isPrefix_dropTailWhile _ _).subset member
  | lead known _ ih =>
    have all : ∀ mark ∈ leads, Unbroken mark := by decide +kernel
    exact unbroken_append.mpr ⟨all _ known, ih⟩
  | joint known _ _ first second =>
    have all : ∀ mark ∈ joints, Unbroken mark := by decide +kernel
    exact unbroken_append.mpr ⟨unbroken_append.mpr ⟨first, all _ known⟩, second⟩
  | tail known _ ih =>
    have all : ∀ mark ∈ tails, Unbroken mark := by decide +kernel
    exact unbroken_append.mpr ⟨ih, all _ known⟩
  | slice _ _ _ receiver start stop =>
    have bracket : Unbroken "[" ∧ Unbroken ":" ∧ Unbroken "]" := by decide
    simp only [unbroken_append, receiver, start, stop, bracket, and_self]
  | libraryText known _ =>
    have all : ∀ entry ∈ libraryTexts, Unbroken entry.1 := by decide +kernel
    exact all _ known
  | libraryLead known _ _ ih =>
    have all : ∀ function ∈ libraryFunctions, Unbroken ("math." ++ function ++ "(") := by decide +kernel
    exact unbroken_append.mpr ⟨all _ known, ih⟩
  | @bareValue _ _ _ _ _ table fine shaped known named respelled =>
    apply Degraded.unbroken_respelled (Degraded.isValue_of_mem_values shaped known) _ respelled
    intro name member
    rcases spellInPython_cases table name with own | renamed
    · have all : ∀ text ∈ ownTexts, Unbroken text := by decide +kernel
      exact all _ own
    · rw [renamed]
      exact clean _ (named name member) _ List.mem_cons_self
  | @bareText _ _ body _ fine shaped =>
    apply unbroken_quoted.mpr
    have inside : ∀ c ∈ body.toList, c ∈ _ := Degraded.within_of_shape? shaped
    exact unbroken_of_subset (clean _ fine _ (by simp [Leaf.texts])) inside

theorem unbroken_formattedLiteral {body : String} (unbroken : Unbroken body) :
    Unbroken (formattedLiteral body) := by
  have doubled {mark : Char} {text : String} (brace : mark ≠ '\n') (unbroken : Unbroken text) :
      Unbroken (respell mark (String.ofList [mark, mark]) text) := by
    intro member
    rw [respell, String.toList_ofList] at member
    obtain ⟨c, present, inside⟩ := List.mem_flatMap.mp member
    split at inside
    · simp [Ne.symm brace] at inside
    · cases List.mem_singleton.mp inside
      exact unbroken present
  exact doubled (by decide) (doubled (by decide) unbroken)

theorem Formatted.unbroken (clean : ∀ leaf, admits leaf → leaf.Unbroken)
    (formatted : Formatted admits caps text) : Unbroken text := by
  induction formatted with
  | nil => decide
  | literal fine _ ih =>
    exact unbroken_append.mpr ⟨unbroken_formattedLiteral (clean _ fine _ List.mem_cons_self), ih⟩
  | value spelled _ _ ih =>
    have braces : Unbroken "\x7b" ∧ Unbroken "\x7d" := by decide
    simp only [unbroken_append, braces, spelled.unbroken clean, ih, and_self]

theorem unbroken_convertSpec {hasArgs : Bool} {spec : List Char} {conversion : Char}
    (unbroken : '\n' ∉ spec) (plain : conversion ≠ '\n') :
    '\n' ∉ convertSpec hasArgs spec conversion := by
  unfold convertSpec
  split
  · decide
  · cases hasArgs <;> decide
  · simpa using unbroken
  · simpa using unbroken
  · simpa using unbroken
  · simp [unbroken, Ne.symm plain]

theorem unbroken_convertFrom {hasArgs : Bool} {spec : Option (List Char)} {cs : List Char}
    (inSpec : ∀ flags ∈ spec, '\n' ∉ flags) (unbroken : '\n' ∉ cs) :
    '\n' ∉ convertFrom hasArgs spec cs := by
  induction cs generalizing spec with
  | nil =>
    cases spec with
    | none => simp [convertFrom]
    | some flags => simpa [convertFrom] using inSpec flags rfl
  | cons c cs ih =>
    obtain ⟨plain, unbroken⟩ := not_or.mp (mt List.mem_cons.mpr unbroken)
    unfold convertFrom
    cases spec with
    | none =>
      dsimp only
      split
      · exact ih (by simp) unbroken
      · exact mt List.mem_cons.mp (not_or.mpr ⟨plain, ih (by simp) unbroken⟩)
    | some flags =>
      have inFlags := inSpec flags rfl
      dsimp only
      split
      · have converted : '\n' ∉ convertSpec hasArgs flags.reverse c :=
          unbroken_convertSpec (mt List.mem_reverse.mp inFlags) (Ne.symm plain)
        exact List.not_mem_append converted (ih (by simp) unbroken)
      split
      · exact ih inSpec unbroken
      · exact ih (by simp [plain, inFlags]) unbroken

theorem unbroken_closedFormat {format closed lineEnd : String} (unbroken : Unbroken format)
    (closes : closedFormat format = (closed, lineEnd)) : Unbroken closed ∧ Unbroken lineEnd := by
  unfold closedFormat at closes
  split at closes
  next stripped found =>
    cases closes
    rw [← append_of_beforeEnd? found, unbroken_append] at unbroken
    exact ⟨unbroken.1, by decide⟩
  next =>
    cases closes
    exact ⟨unbroken, by decide⟩

theorem unbroken_formatArgs {args : List String} (clean : ∀ leaf, admits leaf → leaf.Unbroken)
    (spelled : ∀ arg ∈ args, Spelled admits caps arg) : Unbroken (formatArgs args) := by
  have sign : Unbroken " % " := by decide
  unfold formatArgs
  split
  · decide
  next single =>
    exact unbroken_append.mpr ⟨sign, (spelled single List.mem_cons_self).unbroken clean⟩
  next filled _ =>
    cases args with
    | nil => exact absurd rfl filled
    | cons arg rest =>
      have joined : Spelled admits caps (join ", " (arg :: rest)) := .join (by decide) spelled
      exact unbroken_append.mpr ⟨sign, joined.bracketed.unbroken clean⟩

theorem unbroken_print {args : String} (unbroken : Unbroken args) :
    Unbroken (applied "print" args) := by
  have parts : Unbroken "print" ∧ Unbroken "(" ∧ Unbroken ")" := by decide
  simp only [applied, bracketed, unbroken_append, parts, unbroken, and_self]

theorem Line.unbroken (clean : ∀ leaf, admits leaf → leaf.Unbroken)
    (line : Line admits caps text) : Unbroken text := by
  cases line with
  | spelled spelled => exact spelled.unbroken clean
  | remark unbroken =>
    unfold Render.commentText
    split
    · decide
    · exact unbroken_append.mpr ⟨by decide, unbroken⟩
  | @placeholder stmt fine =>
    have construct : Unbroken stmt.construct := by
      cases stmt with
      | unsupported kind text => exact clean _ (fine _ List.mem_cons_self) _ List.mem_cons_self
      | _ =>
        rw [Stmt.construct]
        decide
    exact unbroken_append.mpr ⟨by decide, construct⟩
  | formatted formatted newline =>
    have ending : Unbroken (printEnd newline) := by cases newline <;> decide
    have mark : Unbroken "f" := by decide
    apply unbroken_print
    simp only [unbroken_append, mark, unbroken_quoted, formatted.unbroken clean, ending, and_self]
  | @format body format lineEnd args fine closed spelled =>
    have converted : Unbroken (convertFormat (!args.isEmpty) body) := by
      rw [Unbroken, convertFormat, String.toList_ofList]
      exact unbroken_convertFrom (by simp) (clean _ fine _ List.mem_cons_self)
    obtain ⟨inFormat, inEnd⟩ := unbroken_closedFormat converted closed
    apply unbroken_print
    simp only [unbroken_append, unbroken_quoted, inFormat, unbroken_formatArgs clean spelled, inEnd,
      and_self]

end Unbroken

section Worded

theorem worded_integerText (worded : Worded digits) : Worded (integerText digits) := by
  unfold integerText
  split
  next c cs same =>
    split
    · refine ⟨.append (by decide) _, ?_⟩
      apply endsPlainly_append_right _ (by simp)
      have ends := worded.ends
      rw [EndsPlainly, same, List.getLast?_cons_cons] at ends
      rw [EndsPlainly, String.toList_ofList]
      exact ends
    · exact worded
  next => exact worded

theorem worded_decimalText (worded : Worded digits) : Worded (decimalText digits) := by
  unfold decimalText
  dsimp only
  split
  · exact worded
  · have begun : Worded ((if beginsWith "." digits then "0" else "") ++ digits) := by
      split
      · exact .append (by decide) worded.ends
      · exact worded
    apply begun.append
    split
    · decide
    · split <;> decide

theorem beginsPlainly_toString (n : Nat) : BeginsPlainly (toString n) := by
  rw [BeginsPlainly, Nat.toString_eq_ofList_toDigits, String.toList_ofList]
  cases digits : Nat.toDigits 10 n with
  | nil => exact absurd digits Nat.toDigits_ne_nil
  | cons c rest =>
    have member : c ∈ Nat.toDigits 10 n := digits ▸ List.mem_cons_self
    have digit : c.isDigit = true := Nat.isDigit_of_mem_toDigits (by omega) (by omega) member
    simp [Char.isDigit_iff_toNat] at digit
    simp [isBlank]
    omega

theorem worded_int (n : Int) : Worded (toString n) := by
  cases n with
  | ofNat n => exact ⟨beginsPlainly_toString n, endsPlainly_toString n⟩
  | negSucc n => exact .append (by decide) (endsPlainly_toString (n + 1))

theorem Spelled.worded (clean : ∀ leaf, admits leaf → leaf.Worded)
    (spelled : Spelled admits caps text) : Worded text := by
  induction spelled with
  | own known =>
    have all : ∀ text ∈ ownTexts, Worded text := by decide +kernel
    exact all _ known
  | name fine => exact clean _ fine
  | integer fine => exact worded_integerText (clean _ fine)
  | decimal fine => exact worded_decimalText (clean _ fine)
  | number n => exact worded_int n
  | @letter body _ =>
    exact ⟨(BeginsPlainly.append (by decide) body).append _,
      endsPlainly_append_right _ (by decide) (by decide)⟩
  | text => exact worded_quoted _
  | label => exact worded_quoted _
  | lead known _ ih =>
    have all : ∀ mark ∈ leads, Worded mark := by decide +kernel
    exact (all _ known).append ih.ends
  | joint known _ _ first second =>
    have all : ∀ mark ∈ joints, EndsPlainly mark := by decide +kernel
    exact (first.append (all _ known)).append second.ends
  | tail known _ ih =>
    have all : ∀ mark ∈ tails, EndsPlainly mark ∧ mark.toList ≠ [] := by decide +kernel
    exact ih.append (all _ known).1
  | slice _ _ _ receiver _ _ =>
    refine ⟨?_, endsPlainly_append_right _ (by decide) (by decide)⟩
    exact (((receiver.begins.append _).append _).append _).append _ |>.append _
  | libraryText known _ =>
    have all : ∀ entry ∈ libraryTexts, Worded entry.1 := by decide +kernel
    exact all _ known
  | libraryLead known _ _ ih =>
    have all : ∀ function ∈ libraryFunctions, Worded ("math." ++ function ++ "(") := by
      decide +kernel
    exact (all _ known).append ih.ends
  | @bareValue _ _ _ _ _ table _ _ _ named respelled =>
    apply Degraded.worded_respelled _ respelled
    intro name member
    rcases spellInPython_cases table name with own | renamed
    · have all : ∀ text ∈ ownTexts, Worded text := by decide +kernel
      exact all _ own
    · rw [renamed]
      exact clean _ (named name member)
  | bareText => exact worded_quoted _

def LooksLikeHeader (text : String) : Prop :=
  ∃ keyword : Keyword, beginsWith keyword.opening text = true ∧ endsIn ":" text = true

theorem not_looksLikeHeader_of_endsPlainly (ends : EndsPlainly text) : ¬LooksLikeHeader text := by
  rintro ⟨keyword, -, colon⟩
  obtain ⟨before, whole⟩ := List.isSuffixOf_iff_suffix.mp colon
  apply ends
  rw [← whole]
  simp

theorem not_looksLikeHeader_remark (rest : String) : ¬LooksLikeHeader ("#" ++ rest) := by
  rintro ⟨keyword, opening, -⟩
  obtain ⟨behind, whole⟩ := List.isPrefixOf_iff_prefix.mp opening
  cases keyword <;> simp [Keyword.opening] at whole

theorem worded_print (args : String) : Worded (applied "print" args) where
  begins := BeginsPlainly.append (by decide) _
  ends := by
    rw [applied, bracketed, ← String.append_assoc]
    exact endsPlainly_append_right _ (by decide) (by decide)

theorem Line.plain (clean : ∀ leaf, admits leaf → leaf.Worded) (line : Line admits caps text) :
    BeginsPlainly text ∧ ¬LooksLikeHeader text := by
  have printed (args : String) : BeginsPlainly (applied "print" args) ∧
      ¬LooksLikeHeader (applied "print" args) :=
    ⟨(worded_print args).begins, not_looksLikeHeader_of_endsPlainly (worded_print args).ends⟩
  have remark (rest : String) : BeginsPlainly ("#" ++ rest) ∧ ¬LooksLikeHeader ("#" ++ rest) :=
    ⟨.append (by decide) rest, not_looksLikeHeader_remark rest⟩
  cases line with
  | spelled spelled =>
    have worded := spelled.worded clean
    exact ⟨worded.begins, not_looksLikeHeader_of_endsPlainly worded.ends⟩
  | @remark text _ =>
    unfold Render.commentText
    split
    · exact remark ""
    · exact remark (" " ++ text)
  | @placeholder stmt _ => exact remark (" unsupported: " ++ stmt.construct)
  | formatted => exact printed _
  | format => exact printed _

end Worded

theorem Header.looksLikeHeader (header : Header admits caps keyword text) :
    beginsWith keyword.opening text = true ∧ endsIn ":" text = true := by
  cases header with
  | bare => exact ⟨by simp [beginsWith], endsIn_append _ _⟩
  | test => exact ⟨by simp [beginsWith], endsIn_append _ _⟩

theorem Header.beginsPlainly (header : Header admits caps keyword text) : BeginsPlainly text := by
  have opening : BeginsPlainly keyword.opening := by cases keyword <;> decide
  cases header with
  | bare => exact opening.append _
  | test => exact (opening.append _).append _

theorem Header.unbroken (header : Header admits caps keyword text)
    (clean : ∀ leaf, admits leaf → leaf.Unbroken) : Unbroken text := by
  have opening : Unbroken keyword.opening := by cases keyword <;> decide
  have colon : Unbroken ":" := by decide
  cases header with
  | bare => exact unbroken_append.mpr ⟨opening, colon⟩
  | test _ spelled =>
    have test := spelled.unbroken clean
    exact unbroken_append.mpr ⟨unbroken_append.mpr ⟨opening, test⟩, colon⟩

end Python

def Context.Names (holds : String → Prop) (cx : Context) : Prop :=
  ∀ symbol ∈ cx.symbols.symbols, holds symbol.targetName

instance decidableNames (holds : String → Prop) [DecidablePred holds] (cx : Context) :
    Decidable (cx.Names holds) :=
  inferInstanceAs (Decidable (∀ symbol ∈ cx.symbols.symbols, holds symbol.targetName))

namespace Python

/-- The lines of a Python statement are those of a well nested block in the layout of the context.
A row that is marked as a header reads like one. With names and numerals in their usual form each
line begins where its margin ends, and no line reads like a header but those; without line breaks in
the leaves there are none in the lines. -/
theorem stmt_lines_wellNested {s : Stmt} {cx after : Context} {lines : List String}
    (ends : (stmt s).run.run cx = .ok (.ok lines, after)) :
    ∃ rows : List Row, lines = rows.map (Row.line cx.layout) ∧ Row.WellNested 0 rows ∧
      (∀ row ∈ rows, ∀ keyword ∈ row.header,
        Text.beginsWith keyword.opening row.text = true ∧ Text.endsIn ":" row.text = true) ∧
      (s.Over Leaf.Worded → cx.Names Text.Worded → ∀ row ∈ rows,
        Text.BeginsPlainly row.text ∧ (LooksLikeHeader row.text → row.header.isSome = true)) ∧
      (s.Over Leaf.Unbroken → cx.Names Text.Unbroken → ∀ row ∈ rows, Text.Unbroken row.text) := by
  let diction := Diction.both (.under (s.Over Leaf.Worded ∧ cx.Names Text.Worded) .worded)
    (.under (s.Over Leaf.Unbroken ∧ cx.Names Text.Unbroken) .unbroken)
  have clean : s.Over diction.admits := fun leaf member =>
    ⟨fun usual => usual.1 leaf member, fun unbroken => unbroken.1 leaf member⟩
  have fits : diction.pythonRule.Admits after.capabilities cx.symbols := by
    intro symbol member
    refine ⟨fun usual => usual.2 symbol member, fun unbroken text inside => ?_⟩
    cases List.mem_singleton.mp inside
    exact unbroken.2 symbol member
  obtain ⟨rows, rfl, nested, written⟩ :=
    (stmt_builds s clean 0).rows_of_run (stmt_orderly s) fits ends
  refine ⟨rows, rfl, nested, ?_, ?_, ?_⟩
  · intro row member keyword marked
    cases written row member with
    | line line => cases marked
    | header header =>
      cases marked
      exact header.looksLikeHeader
  · intro usual names row member
    have clean : ∀ leaf, diction.admits leaf → leaf.Worded := fun leaf fine =>
      fine.1 ⟨usual, names⟩
    cases written row member with
    | line line =>
      obtain ⟨begins, plain⟩ := line.plain clean
      exact ⟨begins, fun looks => absurd looks plain⟩
    | header header => exact ⟨header.beginsPlainly, fun _ => rfl⟩
  · intro unbroken names row member
    have clean : ∀ leaf, diction.admits leaf → leaf.Unbroken := fun leaf fine =>
      fine.2 ⟨unbroken, names⟩
    cases written row member with
    | line line => exact line.unbroken clean
    | header header => exact header.unbroken clean

/-- A conditional with a comment for its first suite, a placeholder for its second and a loop in its
last, at a level of its own. -/
theorem stmt_lines_wellNested_conditional :
    let zero : Expr := .literal (.int "0")
    let s : Stmt := .conditional (.compare .lt (.ident "n") zero)
      [.comment { text := "below", isBlock := false }]
      [.mk (.compare .eq (.ident "n") zero) [.unsupported "try" "try"]]
      (some [.whileLoop (.compare .gt (.ident "n") zero)
        [.expr (.update .decrement false (.ident "n"))]])
    let cx : Context :=
      { target := .python, settings := { indentWidth := 2 }, indent := 1
        symbols := { inner := [Symbol.scalar "n" .int] } }
    ∃ lines after, (stmt s).run.run cx = .ok (lines, after) ∧
      lines = .ok ["  if n < 0:", "    # below", "    pass", "  elif n == 0:",
        "    # unsupported: try", "    pass", "  else:", "    while n > 0:", "      n -= 1"] ∧
      ∃ rows : List Row, lines = .ok (rows.map (Row.line cx.layout)) ∧ Row.WellNested 0 rows ∧
        ∀ row ∈ rows, Text.BeginsPlainly row.text ∧ Text.Unbroken row.text ∧
          (LooksLikeHeader row.text → row.header.isSome = true) := by
  intro zero s cx
  have rendered : ∃ lines after, (stmt s).run.run cx = .ok (lines, after) ∧
      lines = .ok ["  if n < 0:", "    # below", "    pass", "  elif n == 0:",
        "    # unsupported: try", "    pass", "  else:", "    while n > 0:", "      n -= 1"] := by
    decide +kernel
  obtain ⟨_, after, ends, rfl⟩ := rendered
  obtain ⟨rows, same, nested, -, worded, unbroken⟩ := stmt_lines_wellNested ends
  have worded := worded (by decide +kernel) (by decide +kernel)
  have unbroken := unbroken (by decide +kernel) (by decide +kernel)
  refine ⟨_, after, ends, rfl, rows, congrArg Except.ok same, nested, fun row member => ?_⟩
  exact ⟨(worded row member).1, unbroken row member, (worded row member).2⟩

end Python

end Retarget
