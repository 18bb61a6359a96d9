import Retarget.Proofs.PythonCodePoints
import Retarget.Proofs.RangeLoop

/-!
# What a range is given

A range of Python takes whole numbers only. Whether a loop is written as one is decided from the
form of its header, and the start and the bound are put between the brackets as they would be
written anywhere.
-/

namespace Retarget.Python

open Text Attempt

/-- What is added to the bound of a loop so that a range goes just as far. -/
def shift : CompareOp → String
  | .le => " + 1"
  | .ge => " - 1"
  | .lt | .gt | .eq | .ne => ""

/-- The text for the end of a range: that of the bound, which is moved by one if the comparison
admits the bound itself. A number is moved at once. -/
inductive Stop (table : SymbolTable) (op : CompareOp) (bound : Expr) : String → Prop where
  | plain {text : String} (strict : shift op = "") (renders : Renders table bound text) :
      Stop table op bound text
  | moved {text : String} (admits : shift op ≠ "") (noNumber : literalInteger bound = .ok none)
      (renders : Renders table bound text) : Stop table op bound (delimit bound text ++ shift op)
  | number {value : Int} (admits : shift op ≠ "")
      (literal : literalInteger bound = .ok (some value)) :
      Stop table op bound (toString (rangeStop op value))

/-- The texts for the start and the end of a loop, and the arguments of its range. A start at zero
is left out if the step is one. -/
structure Placed (table : SymbolTable) (loop : Counting) (start stop args : String) : Prop where
  start_renders : Renders table loop.start start
  stop_of_bound : Stop table loop.op loop.bound stop
  args_eq : args = stop ∧ loop.step = 1 ∧ literalInteger loop.start = .ok (some 0) ∨
    args = join ", " [start, stop] ∧ loop.step = 1 ∨
    args = join ", " [start, stop, toString loop.step] ∧ loop.step ≠ 1

/-- As far as the types tell, the texts for the start and the end of a loop stand for whole numbers:
the values are neither floating nor strings, and a character is given as its code point. -/
structure Whole (table : SymbolTable) (loop : Counting) (start stop : String) : Prop where
  start_number : (table.typeOf loop.start).isFloating = false ∧ table.typeOf loop.start ≠ .string
  bound_number : (table.typeOf loop.bound).isFloating = false ∧ table.typeOf loop.bound ≠ .string
  start_letter : table.typeOf loop.start = .char →
    ∃ text, Renders table loop.start text ∧ start = applied "ord" text
  bound_letter : table.typeOf loop.bound = .char →
    ∃ text, Renders table loop.bound text ∧ stop = applied "ord" text ++ shift loop.op

variable {table : SymbolTable} {loop : Counting}

theorem rangeEnd_stop (op : CompareOp) (bound : Expr) :
    Yields table (rangeEnd op bound) (Stop table op bound) := by
  have plain (strict : shift op = "") : Yields table (expr bound) (Stop table op bound) :=
    (expr_renders bound).mono fun _ renders => .plain strict renders
  have moved (admits : shift op ≠ "") (noNumber : literalInteger bound = .ok none) :
      Yields table (operand bound >>= fun text => pure (text ++ shift op))
        (Stop table op bound) := by
    refine (operand_renders bound).bind fun text ⟨inner, renders, same⟩ => ?_
    rw [same]
    exact .pure (.moved admits noNumber renders)
  have number {value : Int} (admits : shift op ≠ "")
      (literal : literalInteger bound = .ok (some value)) (fault : Fault) :
      Yields table (Attempt.ofExcept (if isInteger (rangeStop op value) then
        .ok (rangeStop op value) else .error fault) >>= fun sum => pure (toString sum))
        (Stop table op bound) := by
    refine (Yields.ofExcept fun sum computed => ?_).bind
      fun sum (same : sum = rangeStop op value) => ?_
    · split at computed
      · exact (Except.ok.inj computed).symm
      · cases computed
    · rw [same]
      exact .pure (.number admits literal)
  refine (Yields.ofExcept fun _ same => same).bind fun found literal => ?_
  cases op with
  | lt | gt | eq | ne => exact plain rfl
  | le | ge =>
    cases found with
    | none => exact moved (by decide) literal
    | some value => exact number (by decide) literal _

theorem rangeArgs_placed :
    Yields table (rangeArgs loop) fun args => ∃ start stop, Placed table loop start stop args := by
  refine (expr_renders loop.start).bind fun start renders => ?_
  refine (rangeEnd_stop loop.op loop.bound).bind fun stop ended => ?_
  refine (Yields.ofExcept fun _ same => same).bind fun found literal => ?_
  split
  next single =>
    split
    next zero => exact .pure ⟨start, stop, renders, ended, .inl ⟨rfl, single, zero ▸ literal⟩⟩
    next => exact .pure ⟨start, stop, renders, ended, .inr (.inl ⟨rfl, single⟩)⟩
  next wider => exact .pure ⟨start, stop, renders, ended, .inr (.inr ⟨rfl, wider⟩)⟩

theorem Stop.ne_ord {op : CompareOp} {bound : Expr} {stop text : String}
    (stands : Stop table op bound stop) (letter : table.typeOf bound = .char)
    (renders : Renders table bound text) : stop ≠ applied "ord" text ++ shift op := by
  intro same
  cases stands with
  | plain strict again =>
    obtain rfl := renders.unique again
    rw [strict, String.append_empty] at same
    exact application_ne "ord" _ same.symm
  | @moved inner admits noNumber again =>
    obtain rfl := renders.unique again
    have lengths := congrArg String.length same
    have longer := length_delimit_add_le_ord bound inner
    rw [String.length_append, String.length_append] at lengths
    omega
  | number admits literal => exact typeOf_ne_char_of_literalInteger literal letter

theorem notMem_unsuited_iff {type : ValueType} : type ∉ [ValueType.float, .double, .string, .char] ↔
      (type.isFloating = false ∧ type ≠ .string) ∧ type ≠ .char := by
  cases type <;> decide

/-- Nothing is converted for a range, so it is given whole numbers only by their types. -/
theorem whole_iff {start stop args : String} (placed : Placed table loop start stop args) :
    Whole table loop start stop ↔
      ∀ e ∈ [loop.start, loop.bound], table.typeOf e ∉ [.float, .double, .string, .char] := by
  simp only [notMem_unsuited_iff, List.forall_mem_cons]
  constructor
  · intro whole
    refine ⟨⟨whole.start_number, fun letter => ?_⟩, ⟨whole.bound_number, fun letter => ?_⟩, nofun⟩
    · obtain ⟨text, renders, same⟩ := whole.start_letter letter
      obtain rfl := renders.unique placed.start_renders
      exact application_ne "ord" _ same.symm
    · obtain ⟨text, renders, same⟩ := whole.bound_letter letter
      exact placed.stop_of_bound.ne_ord letter renders same
  · rintro ⟨⟨startNumber, noLetter⟩, ⟨boundNumber, noLetterEither⟩, -⟩
    exact ⟨startNumber, boundNumber, fun letter => absurd letter noLetter,
      fun letter => absurd letter noLetterEither⟩

variable {init : Option Stmt} {condition : Option Expr} {update : List Expr} {body : List Stmt}
  {cx after : Context} {lines : List String}

/-- A loop that is written as a loop over a range begins with a header whose arguments are the texts
of the start and the bound, the latter moved by one if the comparison admits it. They are whole
numbers, with characters as code points, if and only if neither the start nor the bound is floating,
a string or a character. -/
theorem range_whole_iff_types
    (accepted : counting? init condition update body = .ok (some loop))
    (ends : (stmt (.forLoop init condition update body)).run.run cx = .ok (.ok lines, after)) :
    ∃ start stop args name header rest, Placed cx.symbols loop start stop args ∧
      cx.line ("for " ++ name ++ " in range(" ++ args ++ "):") = .ok header ∧
      lines = header :: rest ∧ (Whole cx.symbols loop start stop ↔ ∀ e ∈ [loop.start, loop.bound],
        cx.symbols.typeOf e ∉ [.float, .double, .string, .char]) := by
  obtain ⟨shape, -⟩ := counting?_eq_ok_some_iff.mp accepted
  obtain rfl := shape.init_eq
  have looped : ∃ first, (forLines (some (.declare loop.name loop.type (some loop.start))) condition
      update body first (stmts body)).run.run cx = .ok (.ok lines, after) := ⟨_, ends⟩
  obtain ⟨first, looped⟩ := looped
  obtain ⟨args, between, written, -⟩ := Trial.bind_eq_ok.mp
    ((run_forLines_of_counting first (stmts body) accepted cx).symm.trans looped)
  obtain ⟨-, start, stop, placed⟩ := rangeArgs_placed cx args between rfl written
  obtain ⟨name, header, rest, opened, listed⟩ := forLines_range accepted written looped
  exact ⟨start, stop, args, name, header, rest, placed, opened, listed, whole_iff placed⟩

/-- `for (long i = n; i >= k - 2; i -= 3)` with whole numbers `n` and `k`. -/
theorem range_whole_iff_types_downward :
    let cx : Context :=
      { target := .python, symbols := { inner := [.scalar "n" .int, .scalar "k" .long] } }
    let loop : Counting :=
      ⟨"i", .long, .ident "n", .ge, .binary .sub (.ident "k") (.literal (.int "2")), -3⟩
    let init : Stmt := .declare "i" .long (some loop.start)
    let condition : Expr := .compare .ge (.ident "i") loop.bound
    let change : Expr := .assign (.compound .sub) (.ident "i") (.literal (.int "3"))
    counting? (some init) (some condition) [change] [] = .ok (some loop) ∧
      (∃ result after, (stmt (.forLoop (some init) (some condition) [change] [])).run.run cx =
        .ok (result, after) ∧ result = .ok ["for i in range(n, (k - 2) - 1, -3):", "    pass"]) ∧
      ∃ start stop args name, Placed cx.symbols loop start stop args ∧
        cx.line ("for " ++ name ++ " in range(" ++ args ++ "):") =
          .ok "for i in range(n, (k - 2) - 1, -3):" ∧
        Whole cx.symbols loop start stop := by
  intro cx loop init condition change
  have accepted : counting? (some init) (some condition) [change] [] = .ok (some loop) := by rfl
  have written : ∃ result after,
      (stmt (.forLoop (some init) (some condition) [change] [])).run.run cx = .ok (result, after) ∧
        result = .ok ["for i in range(n, (k - 2) - 1, -3):", "    pass"] := by decide +kernel
  refine ⟨accepted, written, ?_⟩
  obtain ⟨_, after, ends, rfl⟩ := written
  obtain ⟨start, stop, args, name, header, rest, placed, opened, listed, whole⟩ :=
    range_whole_iff_types accepted ends
  cases listed
  refine ⟨start, stop, args, name, placed, opened, whole.mpr ?_⟩
  simp only [List.forall_mem_cons]
  exact ⟨by decide, by decide, nofun⟩

/-- `i <= Math.sqrt(n)` after a start at `1`, and `i <= c` after a start at `'a'`, are written with
ranges up to a floating-point number, and from one string to the sum of another and `1`. -/
theorem range_of_root_and_letters :
    let cx : Context :=
      { target := .python, symbols := { inner := [.scalar "n" .int, .scalar "c" .char] } }
    let root : Expr := .call (some (.ident "Math")) "sqrt" [.ident "n"]
    let loop (start bound : Expr) : Stmt :=
      .forLoop (some (.declare "i" .int (some start)))
        (some (.compare .le (.ident "i") bound)) [.update .increment false (.ident "i")] []
    let writes (s : Stmt) (lines : List String) : Prop :=
      ∃ result after, (stmt s).run.run cx = .ok (result, after) ∧ result = .ok lines
    cx.symbols.typeOf root = .double ∧
      writes (loop (.literal (.int "1")) root)
        ["for i in range(1, math.sqrt(n) + 1):", "    pass"] ∧
      cx.symbols.typeOf (.literal (.char "a")) = .char ∧ cx.symbols.typeOf (.ident "c") = .char ∧
      writes (loop (.literal (.char "a")) (.ident "c"))
        ["for i in range('a', c + 1):", "    pass"] := by decide +kernel

end Retarget.Python
