import Retarget.Proofs.Naming

/-!
# Conversions of assigned values

Python tells whole numbers, floating-point numbers and strings of one character apart, while Java
converts a whole number or a character to the type of the variable that receives it.
-/

namespace Retarget

/-- The kinds of Python values that hold the values of Java's types. -/
inductive Kind where
  | whole
  | floating
  | letter
  | text
  | truth
  | other
  deriving DecidableEq

def ValueType.kind : ValueType → Kind
  | byte | short | int | long => .whole
  | float | double => .floating
  | char => .letter
  | string => .text
  | boolean => .truth
  | unknown => .other

/-- Whether Java may convert values of a type to another one without being asked. -/
def ValueType.convertsTo (source type : ValueType) : Bool :=
  source = type || source.isIntegral && type.isNumeric || source.isFloating && type.isFloating

namespace Python

open Text Attempt

/-- What the text of a value of one kind is turned into for the same value in another kind. Python
reads a numeral with a point as a floating-point number. -/
inductive Becomes : Kind → Kind → String → String → Prop where
  | keep (kind : Kind) (text : String) : Becomes kind kind text text
  | point (digits : String) (decimal : digits.toList.all Char.isDigit = true) :
      Becomes .whole .floating digits (digits ++ ".0")
  | float (text : String) : Becomes .whole .floating text (applied "float" text)
  | chr (text : String) : Becomes .whole .letter text (applied "chr" text)
  | ord (text : String) : Becomes .letter .whole text (applied "ord" text)

theorem decimal_texts {digits : String} (decimal : isDecimal digits = true) :
    integerText digits = digits ∧ decimalText digits = digits ++ ".0" ∧
      digits.toList.all Char.isDigit = true := by
  simp only [isDecimal, Bool.or_eq_true, decide_eq_true_eq, Bool.and_eq_true, Bool.not_eq_true']
    at decimal
  rcases decimal with rfl | ⟨noZero, all⟩
  · decide
  · have absent {c : Char} (mark : c.isDigit = false) : c ∉ digits.toList := fun member =>
      Bool.false_ne_true (mark.symm.trans (List.all_eq_true.mp all c member))
    have small : lower digits = digits := by
      have same : digits.toList.map Char.toLower = digits.toList.map id :=
        List.map_congr_left fun c member => toLower_of_isDigit (List.all_eq_true.mp all c member)
      rw [lower, same, List.map_id, String.ofList_toList]
    have noStart (start : String) {mark : Char} (inStart : mark ∈ start.toList)
        (noDigit : mark.isDigit = false) : beginsWith start digits = false :=
      Bool.eq_false_iff.mpr fun begins =>
        absent noDigit ((List.isPrefixOf_iff_prefix.mp begins).subset inStart)
    have noPart (needle : String) {mark : Char} (inNeedle : mark ∈ needle.toList)
        (noDigit : mark.isDigit = false) : contains needle digits = false :=
      Bool.eq_false_iff.mpr fun found => absent noDigit (mem_of_occurs found inNeedle)
    refine ⟨?_, ?_, all⟩
    · unfold integerText
      split
      next c cs spelled =>
        rw [beginsWith, spelled] at noZero
        cases noZero
      next => rfl
    · have noHex : beginsWith "0x" digits = false := noStart "0x" (show 'x' ∈ _ by decide) rfl
      have noExponent : contains "e" digits = false := noPart "e" (show 'e' ∈ _ by decide) rfl
      have noPoint : contains "." digits = false := noPart "." (show '.' ∈ _ by decide) rfl
      have noFront : beginsWith "." digits = false := noStart "." (show '.' ∈ _ by decide) rfl
      simp [decimalText, small, noHex, noExponent, noPoint, noFront]

structure Conversion (source type : ValueType) (text declared : String) : Prop where
  same_iff : text = declared ↔
    (source.isIntegral = true → type.isNumeric = true → source.kind = type.kind)
  becomes : source.convertsTo type = true → ¬(source = .char ∧ type.isFloating = true) →
    Becomes source.kind type.kind text declared

namespace Conversion

variable {source type : ValueType} {text declared : String}

theorem changed {given wanted : Kind} (becomes : Becomes given wanted text declared)
    (texts : text ≠ declared)
    (kinds : source.isIntegral = true ∧ type.isNumeric = true ∧ source.kind ≠ type.kind)
    (named : source ≠ .char ∨ type.isFloating = false → source.kind = given ∧ type.kind = wanted) :
    Conversion source type text declared where
  same_iff := iff_of_false texts fun same => kinds.2.2 (same kinds.1 kinds.2.1)
  becomes _ other := by
    obtain ⟨rfl, rfl⟩ :=
      named ((Decidable.not_and_iff_or_not.mp other).imp_right Bool.eq_false_iff.mpr)
    exact becomes

theorem kept (kinds : (source.isIntegral = true → type.isNumeric = true → source.kind = type.kind) ∧
      (source.convertsTo type = true → source.kind = type.kind)) (text : String) :
    Conversion source type text text where
  same_iff := iff_of_true rfl kinds.1
  becomes converts _ := kinds.2 converts ▸ .keep _ text

end Conversion

section

variable {source type : ValueType}

theorem kinds_of_float : (type.isFloating && source.isIntegral) = true →
    (source.isIntegral = true ∧ type.isNumeric = true ∧ source.kind ≠ type.kind) ∧
      (source ≠ .char ∨ type.isFloating = false →
        source.kind = .whole ∧ type.kind = .floating) := by
  cases source <;> cases type <;> decide

theorem kinds_of_chr : (type = .char && source.isIntegral && source ≠ .char) = true →
    (source.isIntegral = true ∧ type.isNumeric = true ∧ source.kind ≠ type.kind) ∧
      (source.kind = .whole ∧ type.kind = .letter) := by
  cases source <;> cases type <;> decide

theorem kinds_of_ord : (type.isIntegral && type ≠ .char && source = .char) = true →
    (source.isIntegral = true ∧ type.isNumeric = true ∧ source.kind ≠ type.kind) ∧
      (source.kind = .letter ∧ type.kind = .whole) := by
  cases source <;> cases type <;> decide

theorem kinds_of_unconverted (float : ¬(type.isFloating && source.isIntegral) = true)
    (chr : ¬(type = .char && source.isIntegral && source ≠ .char) = true)
    (ord : ¬(type.isIntegral && type ≠ .char && source = .char) = true) :
    (source.isIntegral = true → type.isNumeric = true → source.kind = type.kind) ∧
      (source.convertsTo type = true → source.kind = type.kind) := by
  revert float chr ord
  cases source <;> cases type <;> decide

end

variable {table : SymbolTable} {e : Expr} {text : String}

theorem integer_of_digits {digits : String} (found : integerDigits? e = some digits)
    (renders : Renders table e text) : text = integerText digits := by
  obtain ⟨after, rendered⟩ := renders { target := .python, symbols := table } rfl
  cases e with
  | literal value =>
    cases value with
    | int other | long other =>
      cases found
      cases rendered
      rfl
    | _ => cases found
  | _ => cases found

theorem converted_gives (type : ValueType) (renders : Renders table e text) :
    Gives table (converted type e) (Conversion (table.typeOf e) type text) := by
  have wrapped {given wanted : Kind} (function : String)
      (becomes : Becomes given wanted text (applied function text))
      (kinds : (table.typeOf e).isIntegral = true ∧ type.isNumeric = true ∧
        (table.typeOf e).kind ≠ type.kind)
      (named : table.typeOf e ≠ .char ∨ type.isFloating = false →
        (table.typeOf e).kind = given ∧ type.kind = wanted) :
      Gives table (expr e >>= fun text => pure (applied function text))
        (Conversion (table.typeOf e) type text) :=
    renders.gives.bind fun value same => by
      subst same
      exact .pure (.changed becomes (application_ne function value).symm kinds named)
  refine .symbols ?_
  dsimp only
  split
  next float =>
    obtain ⟨kinds, named⟩ := kinds_of_float float
    split
    next digits found =>
      obtain ⟨literal, decimal⟩ := Option.filter_eq_some_iff.mp found
      obtain ⟨plain, pointed, all⟩ := decimal_texts decimal
      obtain rfl : text = digits := (integer_of_digits literal renders).trans plain
      rw [pointed]
      have longer : text ≠ text ++ ".0" := fun same => by
        have lengths := congrArg String.length same
        have point : ".0".length = 2 := by decide
        rw [String.length_append] at lengths
        omega
      exact .pure (.changed (.point text all) longer kinds named)
    next => exact wrapped "float" (.float text) kinds named
  next float =>
    split
    next chr =>
      obtain ⟨kinds, named⟩ := kinds_of_chr chr
      exact wrapped "chr" (.chr text) kinds fun _ => named
    next chr =>
      split
      next ord =>
        obtain ⟨kinds, named⟩ := kinds_of_ord ord
        exact wrapped "ord" (.ord text) kinds fun _ => named
      next ord =>
        exact renders.gives.mono fun value same =>
          same ▸ .kept (kinds_of_unconverted float chr ord) value

def Assigns (cx : Context) (s : Stmt) (name value : String) : Prop :=
  ∃ line after, (stmt s).run.run cx = .ok (.ok [line], after) ∧
    cx.line (after.symbols.targetName name ++ " = " ++ value) = .ok line

section

variable {cx after : Context} {name value : String}

theorem assigns_of_text {s : Stmt} {made : Attempt String}
    (written : stmt s = made >>= fun text => liftM (Render.oneLine text))
    (orderly : made.Orderly .python .declaring) (room : cx.HasRoom 0)
    (ends : made.run.run cx = .ok (.ok (after.symbols.targetName name ++ " = " ++ value), after)) :
    Assigns cx s name value := by
  have frame : cx.Frame after := orderly.frame ends
  obtain ⟨line, fits⟩ := room.line_eq_ok (after.symbols.targetName name ++ " = " ++ value)
  have lined : (Render.oneLine (after.symbols.targetName name ++ " = " ++ value)).run after =
      .ok ([line], after) := by
    refine Render.bind_eq_ok.mpr ⟨line, after, ?_, rfl⟩
    refine Render.bind_eq_ok.mpr ⟨after, after, rfl, ?_⟩
    rw [frame.line_eq, fits]
    rfl
  refine ⟨line, after, ?_, fits⟩
  rw [written]
  exact Trial.bind_eq_ok.mpr ⟨_, after, ends, Render.bind_eq_ok.mpr ⟨[line], after, lined, rfl⟩⟩

theorem assigns_plain (room : cx.HasRoom 0)
    (rendered : (expr e).run.run cx = .ok (.ok text, after)) :
    Assigns cx (.expr (.assign .plain (.ident name) e)) name text := by
  have ends : (exprStatement (.assign .plain (.ident name) e)).run.run cx =
      .ok (.ok (after.symbols.targetName name ++ " = " ++ text), after) := by
    rw [(renders_of_run rfl rendered).2]
    refine Trial.bind_eq_ok.mpr ⟨cx.symbols, cx, rfl, ?_⟩
    refine Trial.bind_eq_ok.mpr ⟨cx.symbols.targetName name, cx, rfl, ?_⟩
    exact Trial.bind_eq_ok.mpr ⟨text, after, rendered, rfl⟩
  exact assigns_of_text rfl (exprStatement_consulting (.inl trivial)).orderly room ends

theorem assigns_declared {type : ValueType} (room : cx.HasRoom 0)
    (made : (converted type e).run.run cx = .ok (.ok value, after)) :
    Assigns cx (.declare name type (some e)) name value := by
  have contained : (converted type e).Orderly .python .contained :=
    (converted_consulting type (.inl trivial)).orderly
  have frame : cx.Frame after := contained.frame made
  have declaring : (Render.declareFor .python (Symbol.scalar name type)).Safe 0 :=
    (Render.Steady.declareFor _).safe
  obtain ⟨chosen, final, declared, -⟩ := declaring after (room.of_eq frame.indent frame.settings)
  have found : final.symbols.targetName name = chosen := by
    obtain ⟨between, -, rfl⟩ := Render.run_declareFor_eq_ok declared
    exact between.symbols.targetName_declare { Symbol.scalar name type with targetName := chosen }
  have ends : (declareVariable name type (some e)).run.run cx =
      .ok (.ok (final.symbols.targetName name ++ " = " ++ value), final) := by
    rw [found]
    refine Trial.bind_eq_ok.mpr ⟨value, after, made, ?_⟩
    exact Trial.bind_eq_ok.mpr
      ⟨chosen, final, Render.bind_eq_ok.mpr ⟨chosen, final, declared, rfl⟩, rfl⟩
  exact assigns_of_text rfl (declareVariable_declares (fun _ => True) trivial (some e)).orderly room
    ends

/-- For a value that can be written, the assignment to a variable puts its text as it is, and the
declaration of the variable puts a text that it `Becomes` in the kind of the variable, a character
for a floating-point variable apart. The two agree if and only if the value is no whole number or
character that goes to a numeric type of another kind. -/
theorem assigned_eq_declared_iff (name : String) (type : ValueType) (room : cx.HasRoom 0)
    (rendered : (expr e).run.run cx = .ok (.ok text, after)) : ∃ declared,
      Assigns cx (.expr (.assign .plain (.ident name) e)) name text ∧
      Assigns cx (.declare name type (some e)) name declared ∧
      (text = declared ↔ ((cx.symbols.typeOf e).isIntegral = true → type.isNumeric = true →
        (cx.symbols.typeOf e).kind = type.kind)) ∧
      ((cx.symbols.typeOf e).convertsTo type = true →
        ¬(cx.symbols.typeOf e = .char ∧ type.isFloating = true) →
        Becomes (cx.symbols.typeOf e).kind type.kind text declared) := by
  have renders : Renders cx.symbols e text := (renders_of_run rfl rendered).1
  obtain ⟨declared, final, made, -, conversion⟩ := converted_gives type renders cx rfl
  exact ⟨declared, assigns_plain room rendered, assigns_declared room made, conversion.same_iff,
    conversion.becomes⟩

/-- The whole number `n + 1` for a character whose name is reserved. -/
theorem assigned_eq_declared_iff_letter :
    let cx : Context :=
      { target := .python, indent := 2
        symbols := { inner := [{ Symbol.scalar "in" .char with targetName := "in_var" },
          .scalar "n" .int] } }
    let sum : Expr := .binary .add (.ident "n") (.literal (.int "1"))
    cx.HasRoom 0 ∧
      (∃ result after, (expr sum).run.run cx = .ok (result, after) ∧ result = .ok "n + 1") ∧
      ∃ declared, Assigns cx (.expr (.assign .plain (.ident "in") sum)) "in" "n + 1" ∧
        Assigns cx (.declare "in" .char (some sum)) "in" declared ∧
        "n + 1" ≠ declared ∧ Becomes .whole .letter "n + 1" declared := by
  intro cx sum
  have room : cx.HasRoom 0 := ⟨by decide, by decide⟩
  have rendered : ∃ result after, (expr sum).run.run cx = .ok (result, after) ∧
      result = .ok "n + 1" := by decide +kernel
  refine ⟨room, rendered, ?_⟩
  obtain ⟨_, after, rendered, rfl⟩ := rendered
  obtain ⟨declared, assigned, initialised, same, becomes⟩ :=
    assigned_eq_declared_iff "in" .char room rendered
  refine ⟨declared, assigned, initialised, fun agree => ?_, becomes rfl (by decide)⟩
  exact absurd (same.mp agree rfl rfl) (by decide)

/-- An assignment leaves `5` without a point, `65` without `chr` and `'a'` without `ord`, where the
declarations convert these values. -/
theorem assignment_unconverted :
    let cx : Context :=
      { target := .python
        symbols := { inner := [.scalar "d" .double, .scalar "c" .char, .scalar "n" .int] } }
    let writes (s : Stmt) (line : String) : Prop :=
      ∃ result after, (stmt s).run.run cx = .ok (result, after) ∧ result = .ok [line]
    writes (.expr (.assign .plain (.ident "d") (.literal (.int "5")))) "d = 5" ∧
      writes (.declare "d" .double (some (.literal (.int "5")))) "d = 5.0" ∧
      writes (.expr (.assign .plain (.ident "c") (.literal (.int "65")))) "c = 65" ∧
      writes (.declare "c" .char (some (.literal (.int "65")))) "c = chr(65)" ∧
      writes (.expr (.assign .plain (.ident "n") (.literal (.char "a")))) "n = 'a'" ∧
      writes (.declare "n" .int (some (.literal (.char "a")))) "n = ord('a')" := by decide +kernel

end

end Python

end Retarget
