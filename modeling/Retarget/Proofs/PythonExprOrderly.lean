import Retarget.Proofs.Numerals
import Retarget.Proofs.Settle
import Retarget.Render.PythonLoop
import Retarget.Render.PythonPrint

/-!
# Python expressions are contained

Rendering an expression, a print or the header of a counting loop in Python reads the symbol table,
gives warnings and takes modules into use. The bound of a range moves by one where the comparison
admits the bound itself, and the greatest integer has no successor.
-/

namespace Retarget

open Text (maxInteger)
open Attempt.Consulting (mapM ofExcept require symbols warn)

abbrev Expr.Tame (e : Expr) : Prop := e.Within maxInteger

theorem Expr.Tame.literalInteger {e : Expr} (tame : e.Tame) :
    ∃ value, literalInteger e = .ok value := by
  obtain ⟨value, found, -⟩ := literalInteger_of_within (Int.le_refl _) tame
  exact ⟨value, found⟩

abbrev Expr.Bounding (e : Expr) : Prop := e.Tame ∧ e.Within (maxInteger - 1)

namespace Python

variable {may : Prop} {e : Expr} {parts : List Expr}

theorem memberText_consulting (owner : Option String) (field : String) :
    (memberText owner field).Consulting may := by
  unfold memberText
  split
  case h_1 | h_2 | h_3 | h_4 => exact .pure _
  case h_5 | h_6 => exact (require _).bind fun _ => .pure _
  · exact .refuse _

theorem castText_consulting (type source : ValueType) (text : String) :
    (castText type source text).Consulting may := by
  cases type with
  | byte | short | int | long =>
    rw [castText]
    split
    · exact .pure _
    · split
      · exact .pure _
      · exact .pure _
  | float | double | string | boolean => exact .pure _
  | char =>
    rw [castText]
    split
    · exact .pure _
    · exact .pure _
  | unknown => exact .refuse _

theorem mathApplication_consulting (function args : String) :
    (mathApplication function args).Consulting may :=
  (Render.Consulting.require _).bind fun _ => .done _

theorem mathCall?_consulting {method : String} {texts : List String} {text : Render String}
    (found : mathCall? method texts = some text) : text.Consulting may := by
  unfold mathCall? at found
  split at found
  case h_1 | h_2 | h_3 =>
    cases found
    exact .done _
  · cases found
    exact mathApplication_consulting _ _
  case h_5 | h_6 =>
    cases found
    exact (mathApplication_consulting _ _).bind fun _ => .done _
  · cases found
    exact (Render.Consulting.require _).bind fun _ => .done _
  · split at found
    · cases found
      exact mathApplication_consulting _ _
    · cases found

theorem stringCall_consulting (method : String) (args : List Expr) (texts : List String)
    {receiver : Attempt String} (consulting : receiver.Consulting may) :
    (stringCall method args texts receiver).Consulting may := by
  have used (form : String → String) : (receiver >>= fun text => pure (form text)).Consulting may :=
    consulting.bind fun text => .pure _
  unfold stringCall
  split
  case h_9 => exact .refuse _
  all_goals exact used _

theorem callText_consulting (types : List ValueType) (owner : Option String) (method : String)
    (args : List Expr) (texts : List String) {receiver : Attempt String}
    (consulting : receiver.Consulting may) :
    (callText types owner method args texts receiver).Consulting may := by
  unfold callText
  split
  next text found =>
    split at found
    · exact .lift (mathCall?_consulting found)
    · cases found
  next =>
    unfold staticCall
    split
    · exact .pure _
    · exact .pure _
    · exact .pure _
    · exact .pure _
    · exact stringCall_consulting _ _ _ consulting

theorem fromEnd_eq_ok (array : Expr) {position : Expr} (tame : position.Tame) :
    ∃ distance, fromEnd array position = .ok distance := by
  fun_cases fromEnd array position with
  | case1 left right same =>
    obtain ⟨value, found⟩ := Expr.Tame.literalInteger tame.2
    exact ⟨_, by rw [found]; rfl⟩
  | case2 => exact ⟨none, rfl⟩
  | case3 => exact ⟨none, rfl⟩

mutual

theorem expr_consulting : (e : Expr) → may ∨ e.Tame → (expr e).Consulting may
  | .literal value, _ => .pure _
  | .ident name, _ => symbols.bind fun _ => .pure _
  | .binary op left right, tame => by
    have first := expr_consulting left (tame.imp_right (·.1))
    have second := expr_consulting right (tame.imp_right (·.2))
    refine symbols.bind fun table => first.bind fun _ => second.bind fun _ => ?_
    split
    · exact .pure _
    · exact .pure _
  | .unary op operand, tame => (expr_consulting operand tame).bind fun _ => .pure _
  | .logical op left right, tame => by
    have first := expr_consulting left (tame.imp_right (·.1))
    have second := expr_consulting right (tame.imp_right (·.2))
    exact first.bind fun _ => second.bind fun _ => .pure _
  | .compare op left right, tame => by
    have first := expr_consulting left (tame.imp_right (·.1))
    have second := expr_consulting right (tame.imp_right (·.2))
    refine symbols.bind fun table => ?_
    dsimp only
    split
    · refine (warn _).bind fun _ => ?_
      exact first.bind fun _ => second.bind fun _ => .pure _
    · exact first.bind fun _ => second.bind fun _ => .pure _
  | .assign op lhs value, _ => .refuse _
  | .update op leading lhs, _ => .refuse _
  | .index array position, tame => by
    have place : may ∨ position.Tame := tame.imp_right (·.2)
    refine (expr_consulting array (tame.imp_right (·.1))).bind fun _ => ?_
    refine (ofExcept (place.imp_right (fromEnd_eq_ok array))).bind fun distance => ?_
    cases distance with
    | some k => exact .pure _
    | none => exact (expr_consulting position place).bind fun _ => .pure _
  | .member object field, tame => by
    rw [expr]
    split
    · exact (expr_consulting object tame).bind fun _ => .pure _
    · exact memberText_consulting _ _
  | .arrayLiteral items, tame => (exprs_consulting items tame).bind fun _ => .pure _
  | .ternary condition onTrue onFalse, tame => by
    have test := expr_consulting condition (tame.imp_right (·.1))
    have first := expr_consulting onTrue (tame.imp_right (·.2.1))
    have second := expr_consulting onFalse (tame.imp_right (·.2.2))
    exact test.bind fun _ => first.bind fun _ => second.bind fun _ => .pure _
  | .cast type operand, tame =>
    symbols.bind fun _ => (expr_consulting operand tame).bind fun _ =>
      castText_consulting _ _ _
  | .call none method args, tame =>
    symbols.bind fun _ => (exprs_consulting args tame).bind fun _ =>
      callText_consulting _ _ _ _ _ (.refuse _)
  | .call (some receiver) method args, tame => by
    have called := expr_consulting receiver (tame.imp_right (·.1))
    have given := exprs_consulting args (tame.imp_right (·.2))
    refine symbols.bind fun table => given.bind fun texts =>
      callText_consulting _ _ _ _ _ ?_
    split
    · exact called.bind fun _ => .pure _
    · exact .refuse _

theorem exprs_consulting : (es : List Expr) → may ∨ Expr.AllWithin maxInteger es →
    (exprs es).Consulting may
  | [], _ => .pure _
  | e :: rest, tame => by
    have first := expr_consulting e (tame.imp_right (·.1))
    have others := exprs_consulting rest (tame.imp_right (·.2))
    exact first.bind fun _ => others.bind fun _ => .pure _

end

section Values

variable (tame : may ∨ e.Tame)

include tame

theorem operand_consulting : (operand e).Consulting may :=
  (expr_consulting e tame).bind fun _ => .pure _

theorem numericOperand_consulting : (numericOperand e).Consulting may :=
  symbols.bind fun _ => (expr_consulting e tame).bind fun _ => .pure _

theorem stringValue_consulting : (stringValue e).Consulting may :=
  symbols.bind fun _ => (expr_consulting e tame).bind fun _ => .pure _

theorem printedValue_consulting : (printedValue e).Consulting may :=
  symbols.bind fun _ => (expr_consulting e tame).bind fun _ => .pure _

theorem assignment_consulting (op : AssignOp) {lhs : Expr} (lhsTame : may ∨ lhs.Tame) :
    (assignment op lhs e).Consulting may := by
  refine symbols.bind fun table =>
    (expr_consulting lhs lhsTame).bind fun text => ?_
  cases op with
  | plain => exact (expr_consulting e tame).bind fun _ => .pure _
  | compound op =>
    have numeric := numericOperand_consulting tame
    dsimp only
    split
    · exact (stringValue_consulting tame).bind fun _ => .pure _
    · split
      · exact numeric.bind fun _ => .pure _
      · split
        · exact numeric.bind fun _ => .pure _
        · split
          · exact (operand_consulting tame).bind fun _ => .pure _
          · exact numeric.bind fun _ => .pure _

theorem exprStatement_consulting : (exprStatement e).Consulting may := by
  unfold exprStatement
  split
  next target =>
    have written : (expr target).Consulting may := expr_consulting target tame
    refine written.bind fun text => symbols.bind fun table => ?_
    split
    · exact .pure _
    · exact .pure _
  · exact assignment_consulting (tame.imp_right (·.2)) _ (tame.imp_right (·.1))
  · exact expr_consulting _ tame

end Values

section Prints

variable (tame : may ∨ ∀ e ∈ parts, e.Tame)

include tame

theorem labelAndValue_consulting : (labelAndValue parts).Consulting may := by
  unfold labelAndValue
  split
  · split
    · exact .pure _
    · split
      · exact .pure _
      · exact (printedValue_consulting (tame.imp_right (· _ (by simp)))).bind fun _ => .pure _
  · exact .pure _

theorem formattedPieces_consulting : (formattedPieces parts).Consulting may := by
  induction parts with
  | nil => exact .pure _
  | cons part rest ih =>
    have later := ih (tame.imp_right fun all e member => all e (List.mem_cons_of_mem part member))
    rw [formattedPieces]
    split
    · exact later.bind fun _ => .pure _
    · refine (expr_consulting part (tame.imp_right (· part List.mem_cons_self))).bind fun text => ?_
      refine symbols.bind fun table => ?_
      dsimp only
      generalize (if table.typeOf part = .boolean then _ else text) = shown
      split
      · exact later.bind fun _ => .pure _
      · exact .pure _

theorem formattedString_consulting : (formattedString parts).Consulting may := by
  unfold formattedString
  dsimp only
  split
  · exact .pure _
  · exact (formattedPieces_consulting tame).bind fun _ => .pure _

theorem concatenation_consulting : (concatenation parts).Consulting may :=
  (mapM fun e member =>
    stringValue_consulting (tame.imp_right (· e member))).bind fun _ => .pure _

theorem concatenatedArgs_consulting : (concatenatedArgs parts).Consulting may := by
  refine (labelAndValue_consulting tame).bind fun labelled => ?_
  cases labelled with
  | some args => exact .pure _
  | none =>
    refine (formattedString_consulting tame).bind fun formatted => ?_
    cases formatted with
    | some text => exact .pure _
    | none => exact concatenation_consulting tame

theorem formattedPrint_consulting : (formattedPrint parts).Consulting may := by
  unfold formattedPrint
  split
  · exact .refuse _
  · split
    · exact .refuse _
    · refine (mapM fun e member => printedValue_consulting
        (tame.imp_right (· e (List.mem_cons_of_mem _ member)))).bind fun args => ?_
      split
      · exact (warn _).bind fun _ => .pure _
      · exact .pure _

end Prints

theorem print_consulting {p : Print} (tame : may ∨ ∀ e ∈ p.args, e.Tame) :
    (print p).Consulting may := by
  unfold print
  split
  · exact formattedPrint_consulting tame
  · split
    · exact .pure _
    next arg same =>
      have argTame : may ∨ arg.Tame := tame.imp_right (· arg (by simp [same]))
      refine symbols.bind fun table => ?_
      split
      · have parts := argTame.imp_right fun tame =>
          table.forall_concatParts tame fun _ _ sum => ⟨sum.1, sum.2⟩
        exact (concatenatedArgs_consulting parts).bind fun _ => .pure _
      · exact (printedValue_consulting argTame).bind fun _ => .pure _
    · exact .refuse _

theorem rangeEnd_consulting (op : CompareOp) {bound : Expr} (bounding : may ∨ bound.Bounding) :
    (rangeEnd op bound).Consulting may := by
  have tame : may ∨ bound.Tame := bounding.imp_right (·.1)
  refine .afterExcept (tame.imp_right (·.literalInteger)) fun number read => ?_
  have inRange (n : Int) (same : number = some n) :
      may ∨ (Text.minInteger ≤ n + 1 ∧ n + 1 ≤ maxInteger) ∧
        (Text.minInteger ≤ n - 1 ∧ n - 1 ≤ maxInteger) := by
    refine bounding.imp_right fun ⟨_, within⟩ => ?_
    obtain ⟨value, found, bounds⟩ := literalInteger_of_within (by decide) within
    have := bounds n (same ▸ Except.ok.inj (found.symm.trans read))
    simp only [Text.minInteger, maxInteger] at this ⊢
    omega
  split
  next n =>
    have sum : may ∨ ∃ value, addIntegers n 1 = .ok value :=
      (inRange n rfl).imp_right fun fits => ⟨_, if_pos (Text.isInteger_iff.mpr fits.1)⟩
    exact (ofExcept sum).bind fun _ => .pure _
  next n =>
    have difference : may ∨ ∃ value, subIntegers n 1 = .ok value :=
      (inRange n rfl).imp_right fun fits => ⟨_, if_pos (Text.isInteger_iff.mpr fits.2)⟩
    exact (ofExcept difference).bind fun _ => .pure _
  · exact (operand_consulting tame).bind fun _ => .pure _
  · exact (operand_consulting tame).bind fun _ => .pure _
  · exact expr_consulting bound tame

def Counting.Sound (loop : Counting) : Prop :=
  loop.start.Tame ∧ loop.bound.Bounding

theorem rangeArgs_consulting {loop : Counting} (sound : may ∨ loop.Sound) :
    (rangeArgs loop).Consulting may := by
  have tame : may ∨ loop.start.Tame := sound.imp_right (·.1)
  refine (expr_consulting loop.start tame).bind fun start => ?_
  refine (rangeEnd_consulting loop.op (sound.imp_right (·.2))).bind fun stop => ?_
  refine (ofExcept (tame.imp_right (·.literalInteger))).bind fun first => ?_
  split
  · split
    · exact .pure _
    · exact .pure _
  · exact .pure _

theorem exitTest_consulting (tame : may ∨ e.Tame) : (exitTest e).Consulting may := by
  unfold exitTest
  split
  · exact expr_consulting _ tame
  · exact (operand_consulting tame).bind fun _ => .pure _

theorem operand_orderly {target : Target} {extent : Extent} (e : Expr) :
    (operand e).Orderly target extent :=
  (operand_consulting (.inl trivial)).orderly

end Python

end Retarget

/-! ## Texts of expressions -/

namespace Retarget.Attempt

theorem Consulting.exists_gives {α : Type} {attempt : Attempt α} {table : SymbolTable}
    {holds : α → Prop} {may : Prop} (consulting : attempt.Consulting may)
    (gives : Gives table attempt holds) :
    ∃ value, Gives table attempt (· = value) ∧ holds value := by
  obtain ⟨value, after, ends, -, fact⟩ := gives { target := .python, symbols := table } rfl
  refine ⟨value, fun cx same => ?_, fact⟩
  obtain ⟨final, again⟩ := consulting.run_of_symbols same ends
  exact ⟨value, final, again, (consulting.symbols_eq again).trans same, rfl⟩

end Retarget.Attempt

namespace Retarget.Python

open Text Attempt

theorem length_bracketed (text : String) : (bracketed text).length = text.length + 2 := by
  have opening : "(".length = 1 := by decide
  have closing : ")".length = 1 := by decide
  simp only [bracketed, String.length_append]
  omega

theorem length_application (function text : String) :
    (applied function text).length = function.length + (text.length + 2) := by
  rw [applied, String.length_append, length_bracketed]

theorem length_delimit_le (e : Expr) (text : String) :
    (delimit e text).length ≤ text.length + 2 := by
  unfold delimit
  split
  · exact Nat.le_of_eq (length_bracketed text)
  · exact Nat.le_add_right _ 2

theorem application_ne (function text : String) : applied function text ≠ text := by
  intro same
  have lengths := congrArg String.length same
  rw [length_application] at lengths
  omega

theorem length_delimit_add_le_ord (e : Expr) (text : String) :
    (delimit e text).length + 3 ≤ (applied "ord" text).length := by
  have word : "ord".length = 3 := by decide
  have delimited := length_delimit_le e text
  rw [length_application]
  omega

def Renders (table : SymbolTable) (e : Expr) (text : String) : Prop :=
  ∀ cx, cx.symbols = table → ∃ after, (expr e).run.run cx = .ok (.ok text, after)

variable {table : SymbolTable} {e : Expr} {text : String}

theorem renders_of_run {cx after : Context} (same : cx.symbols = table)
    (rendered : (expr e).run.run cx = .ok (.ok text, after)) :
    Renders table e text ∧ after.symbols = table := by
  refine ⟨fun other equal => ?_, ?_⟩
  · exact (expr_consulting e (.inl trivial)).run_of_symbols (equal.trans same.symm) rendered
  · exact ((expr_consulting e (.inl trivial)).symbols_eq rendered).trans same

theorem expr_renders (e : Expr) : Yields table (expr e) (Renders table e) := by
  intro cx text after same rendered
  exact (renders_of_run same rendered).symm

theorem operand_renders (e : Expr) :
    Yields table (operand e) fun text => ∃ inner, Renders table e inner ∧ text = delimit e inner :=
  (expr_renders e).bind fun inner renders => .pure ⟨inner, renders, rfl⟩

namespace Renders

theorem of_yields {holds : String → Prop} (renders : Renders table e text)
    (yields : Yields table (expr e) holds) : holds text := by
  obtain ⟨after, rendered⟩ := renders { target := .python, symbols := table } rfl
  exact (yields _ text after rfl rendered).2

theorem gives (renders : Renders table e text) : Gives table (expr e) (· = text) := by
  intro cx same
  obtain ⟨after, rendered⟩ := renders cx same
  exact ⟨text, after, rendered, (renders_of_run same rendered).2, rfl⟩

theorem unique {other : String} (renders : Renders table e text)
    (again : Renders table e other) : other = text := by
  obtain ⟨_, first⟩ := renders { target := .python, symbols := table } rfl
  obtain ⟨_, second⟩ := again { target := .python, symbols := table } rfl
  cases first.symm.trans second
  rfl

theorem stringValue (renders : Renders table e text) :
    Gives table (stringValue e) (· = stringForm (table.typeOf e) e text) :=
  .symbols (renders.gives.bind fun _ same => same ▸ .pure rfl)

theorem printedValue (renders : Renders table e text) : Gives table (printedValue e)
      (· = if table.typeOf e = .boolean then booleanForm e text else text) :=
  .symbols (renders.gives.bind fun _ same => same ▸ .pure rfl)

end Renders

end Retarget.Python
