import Retarget.Proofs.BareText
import Retarget.Proofs.PythonExprWriting

/-!
# Python lines are spelled out

The texts of prints and declarations, the parts of loop headers and the lines that are made from
bare text are put together from the leaves of what they stand for.
-/

namespace Retarget.Python

open Text Attempt
open List (mem_cons_of_mem mem_cons_self)

variable {parts : List Expr}

variable {diction : Diction} {level : Nat} {caps : Caps}

section Prints

def Printed (admits : Leaf → Prop) (caps : Caps) (args : String) : Prop :=
  Spelled admits caps args ∨ ∃ text, Formatted admits caps text ∧ args = "f" ++ quoted text

theorem labelAndValue_said (clean : ∀ part ∈ parts, part.Over diction.admits) :
    (labelAndValue parts).Says diction.pythonRule level caps
      fun args? => ∀ args ∈ args?, Spelled diction.admits caps args := by
  have nothing : (pure none : Attempt (Option String)).Says
      diction.pythonRule level caps fun args? =>
        ∀ args ∈ args?, Spelled diction.admits caps args :=
    Says.pure fun args found => by cases found
  unfold labelAndValue
  split
  next label value =>
    split
    · exact nothing
    next body found =>
      have fine := Expr.admits_of_stringBody? (clean label mem_cons_self) found
      have overValue := clean value (mem_cons_of_mem _ mem_cons_self)
      split
      · exact nothing
      · apply (printedValue_spells overValue).bind
        intro text spelled
        refine Says.pure fun args found => ?_
        cases found
        exact .joint (by decide) (.label fine) spelled
  next => exact nothing

theorem formattedPieces_said : (parts : List Expr) →
    (∀ part ∈ parts, part.Over diction.admits) →
      (formattedPieces parts).Says diction.pythonRule level caps fun text? =>
        ∀ text ∈ text?, Formatted diction.admits caps text
  | [], _ => .pure fun text found => by
    cases found
    exact .nil
  | part :: rest, clean => by
    have overRest := fun other member => clean other (mem_cons_of_mem part member)
    have joined {front : String}
        (prepends : ∀ text, Formatted diction.admits caps text →
          Formatted diction.admits caps (front ++ text)) :
        (do return (← formattedPieces rest).map (front ++ ·) : Attempt (Option String)).Says
          diction.pythonRule level caps fun text? =>
            ∀ text ∈ text?, Formatted diction.admits caps text := by
      apply (formattedPieces_said rest overRest).bind
      intro text? formatted
      refine Says.pure fun text found => ?_
      obtain ⟨inner, present, rfl⟩ := Option.map_eq_some_iff.mp found
      exact prepends inner (formatted inner present)
    unfold formattedPieces
    split
    next body found =>
      have fine := Expr.admits_of_stringBody? (clean part mem_cons_self) found
      exact joined fun _ formatted => .literal fine formatted
    next =>
      apply (expr_spells part (clean part mem_cons_self)).bind
      intro text spelled
      apply Says.symbols.bind
      intro table _
      have spelled : Spelled diction.admits caps (if table.typeOf part = .boolean then
          applied "str" text ++ ".lower()" else text) := by
        split
        · exact spelled.lowered
        · exact spelled
      apply Writes.ite
      · intro plain
        exact joined fun _ formatted => .value spelled plain formatted
      · intro _
        exact Says.pure fun text found => by cases found

theorem formattedString_said (clean : ∀ part ∈ parts, part.Over diction.admits) :
    (formattedString parts).Says diction.pythonRule level caps
      fun args? => ∀ args ∈ args?, Printed diction.admits caps args := by
  apply Writes.ite
  · intro _
    exact Says.pure fun text found => by cases found
  · intro _
    apply (formattedPieces_said parts clean).bind
    intro text? formatted
    refine Says.pure fun args found => ?_
    obtain ⟨text, present, rfl⟩ := Option.map_eq_some_iff.mp found
    exact .inr ⟨text, formatted text present, rfl⟩

theorem concatenatedArgs_said (clean : ∀ part ∈ parts, part.Over diction.admits)
    (filled : parts ≠ []) :
    (concatenatedArgs parts).Says diction.pythonRule level caps (Printed diction.admits caps) := by
  apply (labelAndValue_said clean).bind
  intro args? labelled
  cases args? with
  | some args => exact Says.pure (.inl (labelled args rfl))
  | none =>
    apply (formattedString_said clean).bind
    intro args? formatted
    cases args? with
    | some args => exact Says.pure (formatted args rfl)
    | none => exact Says.mono (concatenation_spells clean filled) fun _ spelled => .inl spelled

theorem Printed.line {args : String} (printed : Printed diction.admits caps args) (newline : Bool) :
    Line diction.admits caps (applied "print" (args ++ printEnd newline)) := by
  rcases printed with spelled | ⟨text, formatted, rfl⟩
  · cases newline with
    | true =>
      have whole : args ++ printEnd true = args := String.append_empty
      rw [whole]
      exact .spelled (spelled.applied (by decide))
    | false =>
      have ended : Spelled diction.admits caps (args ++ printEnd false) :=
        .tail (by decide) spelled
      exact .spelled (ended.applied (by decide))
  · exact .formatted formatted newline

theorem formattedPrint_said {args : List Expr} (clean : ∀ arg ∈ args, arg.Over diction.admits) :
    (formattedPrint args).Says diction.pythonRule level caps (Line diction.admits caps) := by
  unfold formattedPrint
  split
  · exact .refuse _
  next first rest =>
    split
    · exact .refuse _
    next body found =>
      have fine := Expr.admits_of_stringBody? (clean first mem_cons_self) found
      have spells : (rest.mapM printedValue).Says diction.pythonRule level caps fun texts =>
          texts.length = rest.length ∧ ∀ text ∈ texts, Spelled diction.admits caps text :=
        Says.mapM fun arg member =>
          printedValue_spells (clean arg (mem_cons_of_mem _ member))
      apply spells.bind
      rintro texts ⟨-, spelled⟩
      have printed {format lineEnd : String}
          (closed : closedFormat (convertFormat (!texts.isEmpty) body) = (format, lineEnd)) :
          (pure (applied "print" (quoted format ++ formatArgs texts ++ lineEnd)) :
            Attempt String).Says diction.pythonRule level caps (Line diction.admits caps) :=
        Says.pure (.format fine closed spelled)
      cases ending : beforeEnd? "\\n" (convertFormat (!texts.isEmpty) body)
      all_goals
        have closed := by simpa only [ending] using closedFormat.eq_1 (convertFormat
          (!texts.isEmpty) body)
        simp only [ending]
        apply Writes.ite
        · intro _
          apply (Writes.lift (.warn _)).bind
          intro _ _
          exact printed closed
        · intro _
          exact printed closed

theorem print_said {p : Print} (clean : ∀ leaf ∈ Expr.leavesOf p.args, diction.admits leaf) :
    (print p).Says diction.pythonRule level caps (Line diction.admits caps) := by
  have clean : ∀ arg ∈ p.args, arg.Over diction.admits := fun arg member =>
    Expr.over_of_mem clean member
  apply Writes.ite
  · intro _
    exact formattedPrint_said clean
  · intro _
    split
    · cases p.newline with
      | true => exact Says.pure (.spelled (.own (by decide)))
      | false =>
        have ended : Spelled diction.admits caps noNewline := .own (by decide)
        exact Says.pure (.spelled (ended.applied (by decide)))
    next arg single =>
      have overArg : arg.Over diction.admits := clean arg (by simp [single])
      apply Says.symbols.bind
      intro table _
      apply Writes.ite
      · intro _
        apply (concatenatedArgs_said (Expr.over_concatParts table overArg)
          (SymbolTable.concatParts_ne_nil table arg)).bind
        intro args printed
        exact Says.pure (printed.line p.newline)
      · intro _
        apply (printedValue_spells overArg).bind
        intro args spelled
        exact Says.pure (Printed.line (.inl spelled) p.newline)
    · exact .refuse _

end Prints

section Declarations

theorem declareFor_said {symbol : Symbol} (fine : diction.admits (.name symbol.sourceName)) :
    (Render.declareFor .python symbol).Says diction.pythonRule level caps
      fun chosen => diction.admits (.name chosen) := by
  apply (Render.Writes.declareFor fun chosen stands => diction.admits_of_standsFor stands fine).mono
  rintro _ ⟨chosen, rfl, stands⟩
  exact ⟨chosen, rfl, diction.admits_of_standsFor stands fine⟩

theorem admits_of_integerDigits? {e : Expr} {digits : String} (clean : e.Over diction.admits)
    (found : integerDigits? e = some digits) : diction.admits (.numeral digits) := by
  unfold integerDigits? at found
  split at found
  · cases found
    exact clean _ mem_cons_self
  · cases found
    exact clean _ mem_cons_self
  · cases found

theorem converted_spells (type : ValueType) {value : Expr} (clean : value.Over diction.admits) :
    Spells diction level caps (converted type value) := by
  have applied {function : String} (known : function ++ "(" ∈ leads) :
      Spells diction level caps (do return applied function (← expr value)) := by
    apply (expr_spells value clean).bind
    intro text spelled
    exact Spells.pure (spelled.applied known)
  apply Says.symbols.bind
  intro table _
  apply Writes.ite
  · intro _
    split
    next digits found =>
      obtain ⟨found, -⟩ := Option.filter_eq_some_iff.mp found
      exact Spells.pure (.decimal (admits_of_integerDigits? clean found))
    · exact applied (by decide)
  intro _
  apply Writes.ite
  · intro _
    exact applied (by decide)
  intro _
  apply Writes.ite
  · intro _
    exact applied (by decide)
  · intro _
    exact expr_spells value clean

theorem declareVariable_spells {name : String} (fine : diction.admits (.name name))
    (type : ValueType) {init : Option Expr} (clean : ∀ value ∈ init, value.Over diction.admits) :
    Spells diction level caps (declareVariable name type init) := by
  have declared {value : String}
      (spelled : Spelled diction.admits caps value) : Spells diction level caps (do
        let target ← liftM (declareScalar name type)
        return target ++ " = " ++ value) := by
    apply (Says.lift (declareFor_said fine)).bind
    intro target fine
    exact Spells.pure (.joint (by decide) (.name fine) spelled)
  cases init with
  | some value =>
    apply (converted_spells type (clean value rfl)).bind
    intro text spelled
    exact declared spelled
  | none => exact declared (.defaultValue type)

theorem comprehension_spells : {value : String} → (extents : List Expr) →
    Spelled diction.admits caps value → (∀ extent ∈ extents, extent.Over diction.admits) →
      Spells diction level caps (comprehension value extents)
  | value, [], spelled, _ => .pure spelled
  | value, extent :: rest, spelled, clean => by
    apply (expr_spells extent (clean extent mem_cons_self)).bind
    intro text count
    apply comprehension_spells rest
    · have row : Spelled diction.admits caps ("[" ++ value ++ " for _ in range(" ++ text) :=
        .joint (by decide) (.lead (by decide) spelled) count
      exact .tail (by decide) row
    · exact fun other member => clean other (mem_cons_of_mem extent member)

theorem allocation_spells {fill : String} (spelled : Spelled diction.admits caps fill)
    {extents : List Expr} (clean : ∀ extent ∈ extents, extent.Over diction.admits) :
    Spells diction level caps (allocation fill extents) := by
  have clean : ∀ extent ∈ extents.reverse, extent.Over diction.admits := fun extent member =>
    clean extent (List.mem_reverse.mp member)
  unfold allocation
  split
  · exact .refuse _
  next last outer reversed =>
    rw [reversed] at clean
    apply (operand_spells (clean last mem_cons_self)).bind
    intro text count
    apply comprehension_spells outer
    · exact .joint (by decide) (.lead (by decide) spelled) count
    · exact fun extent member => clean extent (mem_cons_of_mem last member)

theorem arrayValue_said (element : ValueType) (dimensions : Nat) {init : ArrayInit}
    (clean : ∀ leaf ∈ init.leaves, diction.admits leaf) :
    (arrayValue element dimensions init).Says diction.pythonRule level caps
      fun result => Spelled diction.admits caps result.1 := by
  cases init with
  | absent => exact .pure (.own (by decide))
  | literal items =>
    apply (exprs_spell items clean).bind
    intro texts spelled
    exact Says.pure (Spelled.listed spelled)
  | clone source =>
    apply Says.symbols.bind
    intro table _
    apply (operand_spells clean).bind
    intro text spelled
    exact Says.pure (.tail (by decide) spelled)
  | allocate extents =>
    apply (Says.ofExcept (outerExtent extents)).bind
    intro size _
    have fill : Spelled diction.admits caps
        (if extents.length < dimensions then "None" else defaultValue element) := by
      split
      · exact .own (by decide)
      · exact .defaultValue element
    apply (allocation_spells fill fun extent member => Expr.over_of_mem clean member).bind
    intro text spelled
    exact Says.pure spelled
  | _ source =>
    apply Says.symbols.bind
    intro table _
    apply (expr_spells source clean).bind
    intro text spelled
    exact Says.pure spelled

theorem declareArrayOf_spells {name : String} (fine : diction.admits (.name name))
    (element : ValueType) (dimensions : Nat) {init : ArrayInit}
    (clean : ∀ leaf ∈ init.leaves, diction.admits leaf) :
    Spells diction level caps (declareArrayOf name element dimensions init) := by
  apply (arrayValue_said element dimensions clean).bind
  rintro ⟨value, size⟩ spelled
  apply (Says.lift (declareFor_said fine)).bind
  intro target fine
  exact Spells.pure (.joint (by decide) (.name fine) spelled)

end Declarations

section Loops

theorem rangeEnd_spells (op : CompareOp) {bound : Expr} (clean : bound.Over diction.admits) :
    Spells diction level caps (rangeEnd op bound) := by
  apply (Says.ofExcept (literalInteger bound)).bind
  intro literal _
  split
  next n _ =>
    apply (Says.ofExcept (addIntegers n 1)).bind
    intro stop _
    exact Spells.pure (.number stop)
  next n _ =>
    apply (Says.ofExcept (subIntegers n 1)).bind
    intro stop _
    exact Spells.pure (.number stop)
  case h_3 | h_4 =>
    apply (operand_spells clean).bind
    intro text spelled
    exact Spells.pure (.tail (by decide) spelled)
  · exact expr_spells bound clean

theorem rangeArgs_spells {loop : Counting} (overStart : loop.start.Over diction.admits)
    (overBound : loop.bound.Over diction.admits) :
    Spells diction level caps (rangeArgs loop) := by
  apply (expr_spells loop.start overStart).bind
  intro start spelledStart
  apply (rangeEnd_spells loop.op overBound).bind
  intro stop spelledStop
  apply (Says.ofExcept (literalInteger loop.start)).bind
  intro first _
  split
  · split
    · exact Spells.pure spelledStop
    · exact Spells.pure (.join (by decide) (List.forall_mem_cons.mpr
        ⟨spelledStart, List.forall_mem_singleton.mpr spelledStop⟩))
  · exact Spells.pure (.join (by decide) (List.forall_mem_cons.mpr
      ⟨spelledStart, List.forall_mem_cons.mpr
        ⟨spelledStop, List.forall_mem_singleton.mpr (.number loop.step)⟩⟩))

theorem exitTest_spells {condition : Expr} (clean : condition.Over diction.admits) :
    Spells diction level caps (exitTest condition) := by
  unfold exitTest
  split
  next op left right => exact expr_spells (.compare op.inverse left right) clean
  next =>
    apply (operand_spells clean).bind
    intro text spelled
    exact Spells.pure (.lead (by decide) spelled)

end Loops

section BareText

theorem bareValue_spelled {kind text value written : String} {shape : Degraded.Shape}
    {table : SymbolTable} (fine : diction.admits (.source kind text))
    (admits : diction.pythonRule.Admits caps table) (shaped : Degraded.shape? text = some shape)
    (known : value ∈ shape.values)
    (respelled : Degraded.respelled? (Degraded.spellInPython table) value = some written) :
    Spelled diction.admits caps written := by
  apply Spelled.bareValue fine shaped known _ respelled
  intro name member
  exact admits_targetName admits (diction.bare fine shaped (Degraded.Shape.mem_names known member))

theorem pythonLine_said {kind text : String} (fine : diction.admits (.source kind text)) :
    (Degraded.pythonLine text).Says diction.pythonRule level caps
      fun line? => ∀ line ∈ line?, Spelled diction.admits caps line := by
  unfold Degraded.pythonLine
  split
  · exact .done fun line found => by cases found
  next type name value shaped =>
    have fineName : diction.admits (.name name) :=
      diction.bare fine shaped (by cases value <;> exact mem_cons_self)
    apply Render.Writes.symbols.bind
    rintro _ ⟨table, rfl, admits⟩
    have declared {init : String} (spelled : Spelled diction.admits caps init) :
        (do
          let target ← Render.declareFor .python (Symbol.scalar name type)
          return some (target ++ " = " ++ init)).Says diction.pythonRule level caps
          fun line? => ∀ line ∈ line?, Spelled diction.admits caps line := by
      apply (declareFor_said fineName).bind
      intro target fineTarget
      refine Render.Says.done fun line found => ?_
      cases found
      exact .joint (by decide) (.name fineTarget) spelled
    cases value with
    | none => exact declared (by cases type <;> exact .own (by decide))
    | some written =>
      dsimp only
      split
      · exact Render.Says.done fun line found => by cases found
      next init found =>
        exact declared (bareValue_spelled fine admits shaped mem_cons_self found)
  next body newline shaped =>
    refine .done fun line found => ?_
    cases found
    have spelled : Spelled diction.admits caps (quoted body) := .bareText fine shaped
    cases newline with
    | true =>
      have whole : "print(" ++ quoted body ++ "" = "print(" ++ quoted body := String.append_empty
      show Spelled diction.admits caps ("print(" ++ quoted body ++ "" ++ ")")
      rw [whole]
      exact .tail (by decide) (.lead (by decide) spelled)
    | false =>
      have ended : Spelled diction.admits caps ("print(" ++ quoted body ++ ", end=\"\"") :=
        .tail (by decide) (.lead (by decide) spelled)
      exact .tail (by decide) ended
  next name op value shaped =>
    apply Render.Writes.symbols.bind
    rintro _ ⟨table, rfl, admits⟩
    refine Render.Says.done fun line found => ?_
    obtain ⟨written, respelled, rfl⟩ := Option.map_eq_some_iff.mp found
    obtain ⟨-, operator, -⟩ : Degraded.Shape.Within text.toList (.assignment name op value) :=
      Degraded.within_of_shape? shaped
    have known : " " ++ op ++ " " ∈ joints := by
      have all : ∀ op ∈ Degraded.assignmentOps, " " ++ op ++ " " ∈ joints := by decide
      exact all op operator
    have fineName : diction.admits (.name name) :=
      diction.bare fine shaped mem_cons_self
    exact .spaced known (.name (admits_targetName admits fineName))
      (bareValue_spelled fine admits shaped mem_cons_self respelled)

end BareText

end Retarget.Python
