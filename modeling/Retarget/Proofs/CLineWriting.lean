import Retarget.Proofs.BareText
import Retarget.Proofs.CExprWriting

/-!
# C prints and declarations are spelled out

The lines of prints and declarations are put together from the leaves of what they stand for, in any
layout, and a variable is declared under an admitted name.
-/

namespace Retarget.C

open Text Attempt Braces
open Render.Writes (declareFor require warn)

variable {text : String} {init : Option Expr}

variable {manner : Manner} {level : Nat} {caps : Caps}

/-- A rendering lays out rows of written lines, which close all blocks that they open. -/
def Lists (manner : Manner) (level : Nat) (caps : Caps)
    (rendering : Render (List String)) : Prop :=
  rendering.Lays manner.cRule level caps (Laid manner [] [] caps)

/-- An attempt lays out such rows, unless it refuses. -/
def MayList (manner : Manner) (level : Nat) (caps : Caps)
    (attempt : Attempt (List String)) : Prop :=
  attempt.Lays manner.cRule level caps (Laid manner [] [] caps)

theorem oneLine_mayList (sentence : Sentence manner caps text) :
    MayList manner level caps (liftM (Render.oneLine text)) :=
  Lays.oneLine (.sentence sentence [])

theorem twoLines_mayList {first second : String} (sentence : Sentence manner caps first)
    (sentenceToo : Sentence manner caps second) : MayList manner level caps (do
      let above ← Render.line first
      let below ← Render.line second
      return [above, below]) := by
  apply line_bind
  apply line_bind
  have laid : Laid manner [] [] caps
      [{ depth := level, text := first }, { depth := level, text := second }] :=
    (Laid.sentence sentence []).cons (.sentence sentenceToo [])
  exact .rows _ (fun _ => rfl) laid

section Prints

def WellFormed (manner : Manner) (caps : Caps) (format : Format) : Prop :=
  Formatted manner.admits format.text ∧ ∀ arg ∈ format.args, Tidy manner caps arg

theorem formatValue_said {part : Expr} (clean : part.Over manner.admits) :
    (formatValue part).Says manner.cRule level caps (WellFormed manner caps) := by
  apply Says.symbols.bind
  intro table _
  apply (expr_spells part clean).bind
  intro arg worded
  have formed : WellFormed manner caps ⟨formatSpecifier (table.typeOf part), [arg]⟩ :=
    ⟨.specifier _, by simpa using worded⟩
  apply Writes.ite
  · intro _
    exact (Writes.lift (warn _)).bind fun _ _ => Says.pure formed
  · intro _
    exact Says.pure formed

theorem formatParts_said : (parts : List Expr) → (∀ part ∈ parts, part.Over manner.admits) →
    (formatParts parts).Says manner.cRule level caps (WellFormed manner caps)
  | [], _ => Says.pure ⟨.nil, by simp⟩
  | part :: rest, clean => by
    have overRest := fun other member => clean other (List.mem_cons_of_mem part member)
    have joined (first : Format) (formed : WellFormed manner caps first) : (do
          let others ← formatParts rest
          return (⟨first.text ++ others.text, first.args ++ others.args⟩ : Format) :
            Attempt Format).Says manner.cRule level caps (WellFormed manner caps) := by
      apply (formatParts_said rest overRest).bind
      intro others formedToo
      exact Says.pure
        ⟨.append formed.1 formedToo.1, List.forall_mem_append.mpr ⟨formed.2, formedToo.2⟩⟩
    unfold formatParts
    split
    next body found =>
      have fine := Expr.admits_of_stringBody? (clean part List.mem_cons_self) found
      exact joined _ ⟨.literal fine, by simp⟩
    next =>
      apply (formatValue_said (clean part List.mem_cons_self)).bind
      intro first formed
      exact joined first formed

theorem printfCall_sentence {format : Format} (formed : WellFormed manner caps format) :
    Sentence manner caps (printfCall format) :=
  .tail (by decide) (.arguments (.lead (by decide) (.quote (.format formed.1))) formed.2)

theorem print_said {p : Print} (clean : ∀ leaf ∈ Expr.leavesOf p.args, manner.admits leaf) :
    (print p).Says manner.cRule level caps (Sentence manner caps) := by
  apply Writes.ite
  · intro _
    unfold formattedPrint
    split
    · exact .refuse _
    next first rest same =>
      rw [same] at clean
      obtain ⟨overFirst, overRest⟩ := List.forall_mem_append.mp clean
      split
      · exact .refuse _
      next body found =>
        have fine := Expr.admits_of_stringBody? overFirst found
        apply Says.symbols.bind
        intro table _
        apply (exprs_spell rest overRest).bind
        intro args worded
        exact Says.pure (printfCall_sentence ⟨.converted _ fine, worded⟩)
  · intro _
    apply Says.symbols.bind
    intro table _
    have clean : ∀ part ∈ p.args.flatMap table.concatParts, part.Over manner.admits := by
      intro part member
      obtain ⟨arg, inArgs, inside⟩ := List.mem_flatMap.mp member
      exact Expr.over_concatParts table (Expr.over_of_mem clean inArgs) part inside
    apply (formatParts_said _ clean).bind
    rintro format ⟨formatted, worded⟩
    have ended : Formatted manner.admits (format.text ++ if p.newline then "\\n" else "") := by
      cases p.newline with
      | true => exact .append formatted .newline
      | false => exact .append formatted .nil
    have formed : WellFormed manner caps ⟨_, format.args⟩ := ⟨ended, worded⟩
    exact Says.pure (printfCall_sentence formed)

end Prints

section Declarations

theorem declareFor_said {symbol : Symbol} (fine : manner.admits (.name symbol.sourceName))
    (measures : ∀ measured ∈ symbol.aliasOf, Spelled manner.admits caps measured) :
    (Render.declareFor .c symbol).Says manner.cRule level caps fun chosen =>
      manner.admits (.name chosen) := by
  have fits (chosen : String) (stands : Naming.StandsFor symbol.sourceName chosen) :
      manner.cRule.Fits caps { symbol with targetName := chosen } :=
    ⟨manner.admits_of_standsFor stands fine, measures⟩
  apply (declareFor fits).mono
  rintro _ ⟨chosen, rfl, stands⟩
  exact ⟨chosen, rfl, manner.admits_of_standsFor stands fine⟩

theorem declareScalar_said {name : String} (fine : manner.admits (.name name)) (type : ValueType)
    (written : String) :
    (declareScalar name type written).Says manner.cRule level caps fun chosen =>
      manner.admits (.name chosen) :=
  declareFor_said fine fun _ found => by cases found

theorem declareArray_said {name : String} (fine : manner.admits (.name name))
    (element : ValueType) (dimensions : Nat) (size : Option Nat) (written : String)
    :
    (declareArray name element dimensions size written none).Says manner.cRule level caps
      fun chosen => manner.admits (.name chosen) :=
  declareFor_said fine fun _ found => by cases found

theorem declareAlias_said {name measured : String} (fine : manner.admits (.name name))
    (spelled : Spelled manner.admits caps measured) (element : ValueType) (dimensions : Nat)
    (written : String) :
    (declareArray name element dimensions none written (some measured)).Says manner.cRule level
      caps fun chosen => manner.admits (.name chosen) := by
  apply declareFor_said fine
  intro other found
  cases found
  exact spelled

def Declares (manner : Manner) (type : ValueType) (caps : Caps) (text : String) : Prop :=
  ∃ written rest, NamesType caps type written ∧ Tidy manner caps rest ∧
    text = written ++ " " ++ rest

theorem Declares.worded {type : ValueType} {text : String}
    (declares : Declares manner type caps text) : Tidy manner caps text := by
  obtain ⟨written, rest, names, worded, rfl⟩ := declares
  exact .joint (by decide) names.worded worded

theorem initialValue_spells (name : String) {type : ValueType} {written : String}
    (names : NamesType caps type written) (clean : ∀ value ∈ init, value.Over manner.admits) :
    Spells manner level caps (initialValue name type init) := by
  cases init with
  | none => exact .pure names.defaultValue
  | some value =>
    apply Says.symbols.bind
    intro table _
    apply Writes.ite
    · intro _
      apply (Writes.lift (warn _)).bind
      intro _ _
      exact expr_spells value (clean value rfl)
    · intro _
      exact expr_spells value (clean value rfl)

theorem declarator_said {name : String} (fine : manner.admits (.name name)) (type : ValueType)
    (clean : ∀ value ∈ init, value.Over manner.admits) :
    (declarator name type init).Says manner.cRule level caps (Declares manner type caps) := by
  apply (typeName_said type).bind
  intro written names
  apply (initialValue_spells name names clean).bind
  intro value worded
  apply (Says.lift (declareScalar_said fine type written)).bind
  intro target fineTarget
  refine Says.pure ⟨written, target ++ " = " ++ value, names, ?_, ?_⟩
  · exact .joint (by decide) (.name fineTarget) worded
  · simp only [String.append_assoc]

theorem stringBuffer_lists {name : String} (fine : manner.admits (.name name)) {value : Expr}
    (clean : value.Over manner.admits) :
    MayList manner level caps (stringBuffer name value) := by
  apply Says.symbols.bind
  intro table _
  apply (formatParts_said _ (Expr.over_concatParts table clean)).bind
  rintro format ⟨formatted, worded⟩
  apply (Says.lift (declareScalar_said fine .string "char[]")).bind
  intro target fineTarget
  have named : Tidy manner caps target := .name fineTarget
  have storage : Sentence manner caps ("char " ++ target ++ "[" ++ toString bufferSize ++ "];") :=
    .tail (by decide) (.joint (by decide) (.lead (by decide) named) (.count bufferSize))
  have begun : Tidy manner caps
      ("snprintf(" ++ target ++ ", sizeof(" ++ target ++ "), " ++ quoted format.text) :=
    .joint (by decide) (.joint (by decide) (.lead (by decide) named) named) (.quote (.format formatted))
  have fill : Sentence manner caps ("snprintf(" ++ target ++ ", sizeof(" ++ target ++ "), " ++
      quoted format.text ++ printArgs format.args ++ ");") :=
    .tail (by decide) (begun.arguments fun arg member => (worded arg member))
  exact twoLines_mayList storage fill

theorem declareVariable_lists {name : String} (fine : manner.admits (.name name)) (type : ValueType)
    (clean : ∀ value ∈ init, value.Over manner.admits) :
    MayList manner level caps (declareVariable name type init) := by
  apply Says.symbols.bind
  intro table _
  split
  next value found =>
    obtain ⟨present, -⟩ := Option.filter_eq_some_iff.mp found
    exact stringBuffer_lists fine (clean value present)
  next =>
    apply (declarator_said fine type clean).bind
    intro text declares
    exact oneLine_mayList (.tail (by decide) declares.worded)

variable {name written : String} {element : ValueType}

theorem literalArray_lists (fine : manner.admits (.name name)) (dimensions : Nat)
    (names : NamesType caps element written) {items : List Expr}
    (clean : ∀ leaf ∈ Expr.leavesOf items, manner.admits leaf) :
    MayList manner level caps (literalArray name element dimensions written items) := by
  apply Writes.ite
  · intro _
    exact .refuse _
  · intro _
    apply (Says.ofExcept (checkedExtents items dimensions)).bind
    intro extents _
    apply (expr_spells (.arrayLiteral items) clean).bind
    intro values worded
    apply (Says.lift (declareArray_said fine element dimensions extents.head? _)).bind
    intro target fineTarget
    have declared : Tidy manner caps
        (written ++ " " ++ target ++ extentText (extents.map toString)) := by
      apply Tidy.extents (.joint (by decide) names.worded (.name fineTarget))
      intro extent member
      obtain ⟨n, -, rfl⟩ := List.mem_map.mp member
      exact .count n
    exact oneLine_mayList (.tail (by decide) (.joint (by decide) declared worded))

theorem allocatedArray_lists (fine : manner.admits (.name name)) (dimensions : Nat)
    (names : NamesType caps element written) {extents : List Expr}
    (clean : ∀ leaf ∈ Expr.leavesOf extents, manner.admits leaf) :
    MayList manner level caps (allocatedArray name element dimensions written extents) := by
  apply Writes.ite
  · intro _
    exact .refuse _
  intro _
  apply (Says.ofExcept (hasEmptyExtent extents)).bind
  intro isEmpty _
  apply Writes.ite
  · intro _
    exact .refuse _
  intro _
  apply (Says.ofExcept (areConstant extents)).bind
  intro isConstant _
  apply (Says.ofExcept (outerExtent extents)).bind
  intro size _
  apply (exprs_spell extents clean).bind
  intro texts worded
  apply (Says.lift (declareArray_said fine element dimensions size _)).bind
  intro target fineTarget
  have named : Tidy manner caps target := .name fineTarget
  have declared : Tidy manner caps (written ++ " " ++ target ++ extentText texts) :=
    .extents (.joint (by decide) names.worded named) fun text member =>
      (worded text member)
  apply Writes.ite
  · intro _
    exact oneLine_mayList (.tail (by decide) declared)
  · intro _
    apply (Writes.lift (require .string)).bind
    intro _ used
    have storage : Sentence manner caps (written ++ " " ++ target ++ extentText texts ++ ";") :=
      .tail (by decide) declared
    have fill : Sentence manner caps ("memset(" ++ target ++ ", 0, sizeof(" ++ target ++ "));") :=
      .tail (by decide) (.joint (by decide) (.libraryLead (by decide) used named) named)
    exact twoLines_mayList storage fill

theorem measuredArray_spelled {table : SymbolTable} (admits : manner.cRule.Admits caps table)
    (source : Expr) (worded : Tidy manner caps text) :
    Spelled manner.admits caps (measuredArray table source text) := by
  unfold measuredArray
  cases found : (source.ident?.bind table.lookup).bind (·.aliasOf) with
  | none => exact worded.spelled
  | some measured =>
    obtain ⟨symbol, inTable, isAlias⟩ := Option.bind_eq_some_iff.mp found
    obtain ⟨name, -, inScope⟩ := Option.bind_eq_some_iff.mp inTable
    exact (admits.lookup inScope).2 measured isAlias

theorem aliasArray_lists (fine : manner.admits (.name name)) (dimensions : Nat)
    (names : NamesType caps element written) {source : Expr} (clean : source.Over manner.admits) :
    MayList manner level caps (aliasArray name element dimensions written source) := by
  apply Writes.ite
  · intro _
    exact .refuse _
  · intro _
    apply (expr_spells source clean).bind
    intro text worded
    apply Says.symbols.bind
    intro table admits
    have measured := measuredArray_spelled admits source worded
    apply (Says.lift (declareAlias_said fine measured element dimensions _)).bind
    intro target fineTarget
    exact oneLine_mayList (.tail (by decide)
      (.joint (by decide) (names.pointer (.name fineTarget)) worded))

theorem nullArray_lists (fine : manner.admits (.name name)) (dimensions : Nat)
    (names : NamesType caps element written) :
    MayList manner level caps (nullArray name element dimensions written) := by
  apply Writes.ite
  · intro _
    exact .refuse _
  · intro _
    apply (Writes.lift (warn _)).bind
    intro _ _
    apply (Says.lift (declareArray_said fine element dimensions none _)).bind
    intro target fineTarget
    exact oneLine_mayList (.tail (by decide) (names.pointer (.name fineTarget)))

theorem countingHeader_marked {i count : String} (index : Tidy manner caps i)
    (worded : Tidy manner caps count) : Marked manner false true caps
      ("for (int " ++ i ++ " = 0; " ++ i ++ " < " ++ count ++ "; " ++ i ++ "++) \x7b") :=
  .tail (by decide) (.joint (by decide) (.joint (by decide)
    (.joint (by decide) (.lead (by decide) index) index) worded) index)

theorem copyLoop_lists {target count : String} (first : Tidy manner caps target)
    (second : Tidy manner caps text) (third : Tidy manner caps count)
    (names : NamesType caps element written) : MayList manner level caps (do
      let i := (← Render.symbols).freshName "i"
      let unit ← Attempt.ofExcept (spaces (← Render.settings).indentWidth)
      let storage ← Render.line (written ++ " " ++ target ++ "[" ++ count ++ "];")
      let header ← Render.line ("for (int " ++ i ++ " = 0; " ++ i ++ " < " ++ count ++ "; " ++ i ++
        "++) \x7b")
      let copy ← Render.line (unit ++ target ++ "[" ++ i ++ "] = " ++ text ++ "[" ++ i ++ "];")
      let close ← Render.line "\x7d"
      return [storage, header, copy, close]) := by
  apply Says.symbols.bind
  intro table _
  apply (Writes.lift .settings).bind
  rintro _ ⟨settings, rfl⟩
  apply (Writes.lift .unit).bind
  rintro _ rfl
  apply line_bind
  apply line_bind
  apply (Writes.lift (.line fun layout => layout.unit ++ target ++ "[" ++
    table.freshName "i" ++ "] = " ++ text ++ "[" ++ table.freshName "i" ++ "];")).bind
  rintro _ rfl
  apply line_bind
  have index : Tidy manner caps (table.freshName "i") := .name (manner.index table)
  have storage : Sentence manner caps (written ++ " " ++ target ++ "[" ++ count ++ "];") :=
    .tail (by decide) (.joint (by decide)
      (.joint (by decide) names.worded first) third)
  have copy : Sentence manner caps (target ++ "[" ++ table.freshName "i" ++ "] = " ++ text ++
      "[" ++ table.freshName "i" ++ "];") :=
    .tail (by decide) (.joint (by decide) (.joint (by decide)
      (.joint (by decide) first index) second) index)
  have loop := Laid.braced (countingHeader_marked index third)
    (.sentence copy _ : Laid manner [level] [level] caps [{ depth := level + 1, text := _ }])
    (.own (by decide) : Marked manner true false caps "\x7d")
  have laid : Laid manner [] [] caps ({ depth := level, text := _ } :: _) :=
    (Laid.sentence storage []).cons loop
  refine .rows _ ?_ laid
  intro layout
  simp only [String.append_assoc, Row.line_unit, Row.lines, List.map_cons, List.map_nil,
    List.cons_append, List.nil_append]

theorem clonedArray_lists (fine : manner.admits (.name name)) (dimensions : Nat)
    (names : NamesType caps element written) {source : Expr} (clean : source.Over manner.admits) :
    MayList manner level caps (clonedArray name element dimensions written source) := by
  apply (expr_spells source clean).bind
  intro text worded
  apply (length_spells clean).bind
  intro count counted
  apply Says.symbols.bind
  intro table admits
  apply Writes.ite
  · intro _
    apply (Says.lift (declareArray_said fine element dimensions _ _)).bind
    intro target fineTarget
    exact copyLoop_lists (.name fineTarget) worded counted names
  · intro _
    have measured := measuredArray_spelled admits source worded
    apply (Says.lift (declareArray_said fine element dimensions _ _)).bind
    intro target fineTarget
    apply (Writes.lift (require .string)).bind
    intro _ used
    have named : Tidy manner caps target := .name fineTarget
    have storage : Sentence manner caps (written ++ " " ++ target ++
        extentText ((List.range dimensions).map (levelExtent (measuredArray table source text))) ++
        ";") := by
      apply Sentence.tail (by decide)
      apply Tidy.extents (.joint (by decide) names.worded named)
      intro extent member
      obtain ⟨depth, -, rfl⟩ := List.mem_map.mp member
      exact (.sizeQuotient (measured.items depth))
    have copy : Sentence manner caps
        ("memcpy(" ++ target ++ ", " ++ text ++ ", sizeof(" ++ target ++ "));") :=
      .tail (by decide) (.joint (by decide) (.joint (by decide)
        (.libraryLead (by decide) used named) worded) named)
    exact twoLines_mayList storage copy

theorem declareArrayOf_lists (fine : manner.admits (.name name)) (element : ValueType)
    (dimensions : Nat) {init : ArrayInit} (clean : ∀ leaf ∈ init.leaves, manner.admits leaf) :
    MayList manner level caps (declareArrayOf name element dimensions init) := by
  apply (typeName_said element).bind
  intro written names
  cases init with
  | absent => exact nullArray_lists fine dimensions names
  | literal items => exact literalArray_lists fine dimensions names clean
  | clone source => exact clonedArray_lists fine dimensions names clean
  | allocate extents => exact allocatedArray_lists fine dimensions names clean
  | _ source => exact aliasArray_lists fine dimensions names clean

end Declarations

section BareText

/-- A line that is made from a bare text opens and closes nothing. -/
def Still (manner : Manner) (line? : Option String) : Prop :=
  ∀ line, line? = some line → manner.tidy → Clear line ∧ EndsLine false line

theorem still_none : Still manner none :=
  fun _ found => by cases found

theorem cDeclaration_said {name : String} (fine : manner.admits (.name name)) (type : ValueType)
    (value : Option String) :
    (Degraded.cDeclaration type name value).Says manner.cRule level caps (Still manner) := by
  have nothing : (.done none : Render (Option String)).Says manner.cRule
      level caps (Still manner) :=
    Render.Says.done still_none
  apply Render.Writes.symbols.bind
  rintro _ ⟨table, rfl, -⟩
  apply Render.Writes.ite
  · intro _
    exact nothing
  intro _
  have named : Render.Writes manner.cRule level caps (fun _ => (typeName type).run)
      (Outcome (Constant (NamesType caps type))) :=
    typeName_said type
  apply named.bind
  intro _ outcome
  cases outcome with
  | refused refusal => exact nothing
  | given fact =>
    obtain ⟨written, rfl, names⟩ := fact
    dsimp only
    split
    · exact nothing
    next init found =>
      have declared : (do
          let target ← Render.declareFor .c
            { Symbol.scalar name type with targetType := some written }
          return some (written ++ " " ++ target ++ " = " ++ init ++ ";") :
            Render (Option String)).Says manner.cRule level caps (Still manner) := by
        apply (declareScalar_said fine type written).bind
        intro target _
        refine Render.Says.done ?_
        rintro _ ⟨⟩ -
        have heads := ((names.heads.append " ").append target).append " = "
        exact ⟨((heads.append init).append ";").clear, EndsLine.append (by decide) _⟩
      split
      · exact (require .bool).bind fun _ _ => declared
      · exact declared

theorem cLine_said {kind : String} (fine : manner.admits (.source kind text)) :
    (Degraded.cLine text).Says manner.cRule level caps (Still manner) := by
  unfold Degraded.cLine
  split
  · exact .done still_none
  next type name value shaped =>
    have fineName : manner.admits (.name name) :=
      manner.bare fine shaped (by cases value <;> exact List.mem_cons_self)
    exact cDeclaration_said fineName type value
  next =>
    refine .done ?_
    rintro _ ⟨⟩ -
    have heads : Heads false "printf(" := by decide
    exact ⟨((heads.append _).append ");").clear, .append (by decide) _⟩
  next name op value shaped =>
    have fineName : manner.admits (.name name) := manner.bare fine shaped List.mem_cons_self
    apply Render.Writes.symbols.bind
    rintro _ ⟨table, rfl, admits⟩
    apply Render.Writes.ite
    · intro _
      exact Render.Says.done still_none
    · intro _
      refine Render.Says.done fun line found tidy => ?_
      obtain ⟨written, -, rfl⟩ := Option.map_eq_some_iff.mp found
      refine ⟨?_, .append (by decide) _⟩
      have ops : ∀ op ∈ Degraded.assignmentOps, Heads false op := by decide
      have heads := ops op (Degraded.within_of_shape? shaped).2.1
      have sign : Clear (" " ++ (op ++ (" " ++ (written ++ ";")))) :=
        Clear.append (by decide) (heads.append _).clear
      simp only [String.append_assoc]
      exact ((targetName_worded admits fineName).clear tidy).append sign

end BareText

end Retarget.C
