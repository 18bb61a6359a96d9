import Retarget.Proofs.CChanges
import Retarget.Proofs.CExprWriting

/-!
# Effects in C expressions

The C text of an expression shows as many operators that change a variable as were counted from the
expression: none is lost, and none is repeated but with an operand that is written twice.
-/

namespace Retarget

open Text

variable {opens : Bool} {method sign : String} {count : Nat} {texts : List String}
  {args : List Expr}

theorem Attempt.Yields.ite {α : Type} {table : SymbolTable} {holds : α → Prop} {condition : Prop}
    [Decidable condition] {first second : Attempt α}
    (affirmed : condition → Yields table first holds)
    (denied : ¬condition → Yields table second holds) :
    Yields table (if condition then first else second) holds := by
  split
  next yes => exact affirmed yes
  next no => exact denied no

namespace C

open Attempt

variable {table : SymbolTable} {e : Expr} {text : String}

/-- A text that shows so many changes and, unless it opens bare, keeps a sign before it apart. -/
def Shows (opens : Bool) (count : Nat) (text : String) : Prop :=
  changesIn text = count ∧ (opens = false → Doubled text.toList)

theorem Shows.of_begins (counts : changesIn text = count) (begins : beginsPlain text = true) :
    Shows opens count text :=
  ⟨counts, fun _ => .of_begins begins⟩

/-- What the text of an expression shows of its changes: their number, and that a sign before the
text of an operand stays for itself. -/
structure Tells (table : SymbolTable) (e : Expr) (text : String) : Prop where
  counts : changesIn text = e.written table
  alone : e.opensBare = false → Doubled text.toList

theorem changesIn_delimit (e : Expr) (text : String) :
    changesIn (delimit e text) = changesIn text := by
  unfold delimit
  split
  · exact changesIn_bracketed text
  · rfl

theorem beginsPlain_bracketed (text : String) : beginsPlain (bracketed text) = true :=
  beginsPlain_append (beginsPlain_append (by decide) text) ")"

theorem Tells.delimit (tells : Tells table e text) :
    Shows (!e.isCompound && e.opensBare) (e.written table) (delimit e text) := by
  refine ⟨(changesIn_delimit e text).trans tells.counts, fun closed => ?_⟩
  unfold C.delimit
  split
  · exact .of_begins (beginsPlain_bracketed text)
  next simple =>
    rw [Bool.or_eq_true, not_or, Bool.not_eq_true] at simple
    rw [simple.1, Bool.not_false, Bool.true_and] at closed
    exact tells.alone closed

theorem Tells.of_shows (shows : Shows e.opensBare (e.written table) text) : Tells table e text :=
  ⟨shows.1, shows.2⟩

theorem Tells.bare (bare : e.opensBare = true) (counts : changesIn text = e.written table) :
    Tells table e text :=
  ⟨counts, fun closed => by rw [bare] at closed; cases closed⟩

theorem Tells.of_signless (signless : isSignless text = true) (none : e.written table = 0) :
    Tells table e text :=
  ⟨(changesIn_of_signless signless).trans none.symm, fun _ => .of_signless signless⟩

theorem isSignless_toString (n : Nat) : isSignless (toString n) = true := by
  refine List.all_eq_true.mpr fun c member => ?_
  rw [Nat.toString_eq_repr, Nat.toList_repr] at member
  have digit := Nat.isDigit_of_mem_toDigits (by omega) (by omega) member
  rw [Bool.not_eq_true']
  refine Bool.eq_false_iff.mpr fun sign => ?_
  have apart : (operatorChars.all fun c => !c.isDigit) = true := by decide
  have letter := List.all_eq_true.mp apart c (List.contains_iff_mem.mp sign)
  rw [digit] at letter
  cases letter

theorem isSignless_integerText {digits : String} (signless : isSignless digits = true) :
    isSignless (integerText digits) = true := by
  unfold integerText
  cases spelled : Literal.numeralValue digits with
  | none => exact signless
  | some value =>
    have unsigned : '-' ∉ digits.toList := fun member => by
      have plain := List.all_eq_true.mp signless '-' member
      exact absurd plain (by decide)
    obtain ⟨positive, _⟩ := Literal.numeralValue_bounds unsigned spelled
    obtain ⟨n, rfl⟩ := Int.eq_ofNat_of_zero_le positive
    dsimp only
    split
    · exact isSignless_toString n
    · exact signless

theorem isSignless_decimalText {digits : String} (signless : isSignless digits = true) :
    isSignless (decimalText digits) = true := by
  have before (point : Bool) : isSignless (if point then "0" else "") = true := by
    cases point <;> decide
  have behind (whole point : Bool) :
      isSignless (if !whole then ".0" else if point then "0" else "") = true := by
    cases whole <;> cases point <;> decide
  unfold decimalText
  dsimp only
  split
  · exact signless
  · rw [isSignless_append, isSignless_append, signless, before, behind]
    rfl

theorem literal_tells (value : Literal) (plain : (Expr.literal value).Plain table) :
    Yields table (expr (.literal value)) (Tells table (.literal value)) := by
  cases value with
  | int digits =>
    exact .pure (.of_signless (isSignless_integerText plain) rfl)
  | long digits =>
    refine .pure (.of_signless ?_ rfl)
    rw [isSignless_append, isSignless_integerText plain]
    rfl
  | float digits =>
    refine .pure (.of_signless ?_ rfl)
    rw [isSignless_append, isSignless_decimalText plain]
    rfl
  | double digits =>
    exact .pure (.of_signless (isSignless_decimalText plain) rfl)
  | bool value =>
    refine .lift fun cx text after ends => ?_
    cases ends
    exact ⟨rfl, .of_signless (by cases value <;> decide) rfl⟩
  | char body =>
    refine .pure (.of_signless ?_ rfl)
    rw [isSignless_append, isSignless_append, show isSignless body = true from plain]
    rfl
  | string body =>
    show Yields table (pure ("\"" ++ body ++ "\"")) _
    refine .pure (.of_signless ?_ rfl)
    rw [isSignless_append, isSignless_append, show isSignless body = true from plain]
    rfl
  | null => exact .pure (.of_signless (by decide) rfl)

theorem Shows.subscript {more : Nat} {position : String} (shows : Shows opens count text)
    (counts : changesIn position = more) :
    Shows opens (count + more) (text ++ "[" ++ position ++ "]") := by
  constructor
  · rw [changesIn_after (by decide), changesIn_around (by decide), shows.1, counts]
  · intro closed
    rw [String.append_assoc, String.append_assoc, String.toList_append]
    exact (shows.2 closed).append (.of_begins (beginsPlain_append (by decide) _))

theorem libraryCall_shows (capability : Capability) {name args : String}
    (known : (isSignless name && beginsPlain name) = true) :
    Yields table (liftM (libraryCall capability name args)) (Shows opens (changesIn args)) := by
  refine .lift fun cx text after ends => ?_
  cases ends
  obtain ⟨signless, begins⟩ := (Bool.and_eq_true _ _).mp known
  refine ⟨rfl, .of_begins ?_ (beginsPlain_append begins _)⟩
  rw [changesIn_append (.inr (beginsPlain_bracketed args)), changesIn_of_signless signless,
    changesIn_bracketed, Nat.zero_add]

theorem changesIn_join {es : List Expr} (told : texts.map changesIn = es.map (Expr.written table)) :
    changesIn (join ", " texts) = Expr.writtenOf table es := by
  induction es generalizing texts with
  | nil =>
    cases List.map_eq_nil_iff.mp told
    rfl
  | cons e rest ih =>
    obtain ⟨first, others, rfl, same, later⟩ := List.map_eq_cons_iff.mp told
    cases others with
    | nil =>
      cases List.map_eq_nil_iff.mp later.symm
      rw [join, String.intercalate_singleton]
      exact same
    | cons second others =>
      rw [join, String.intercalate_cons_cons, changesIn_around (by decide), same]
      exact congrArg _ (ih later)

theorem selectText_shows {a b : String} (weightless : changesIn sign = 0) :
    Shows opens (2 * (changesIn a + changesIn b)) (selectText sign a b) := by
  refine .of_begins ?_ (beginsPlain_bracketed _)
  rw [selectText, changesIn_bracketed, changesIn_around (by decide), changesIn_around (by decide),
    changesIn_spaced, weightless]
  omega

/-- How often a mathematical function writes its arguments. -/
def factor (table : SymbolTable) (method : String) (args : List Expr) : Nat :=
  if Expr.isSelection table method args then 2 else 1

theorem factor_eq_one (other : ["max", "min"].contains method = false) (args : List Expr) :
    factor table method args = 1 := by
  simp only [factor, Expr.isSelection, other, Bool.false_and, Bool.false_eq_true, if_false]

theorem selection_shows {function x y : String} {a b : Expr}
    (chosen : ["max", "min"].contains method = true)
    (known : (isSignless function && beginsPlain function) = true) (weightless : changesIn sign = 0)
    (told : [x, y].map changesIn = [a, b].map (Expr.written table)) : Yields table
      (if (table.typesOf [a, b]).any ValueType.isFloating then
        liftM (libraryCall .math function (join ", " [x, y]))
      else pure (selectText sign (delimit a x) (delimit b y)))
      (Shows opens (factor table method [a, b] * Expr.writtenOf table [a, b])) := by
  have joined := changesIn_join told
  split
  next floating =>
    have once : factor table method [a, b] = 1 := by
      simp only [factor, Expr.isSelection, floating, Bool.not_true, Bool.and_false,
        Bool.false_eq_true, if_false]
    rw [once, Nat.one_mul, ← joined]
    exact libraryCall_shows .math known
  next floating =>
    have twice : factor table method [a, b] = 2 := by
      rw [factor, Expr.isSelection, chosen, Bool.eq_false_iff.mpr floating]
      rfl
    have sum : changesIn (delimit a x) + changesIn (delimit b y) = Expr.writtenOf table [a, b] := by
      rw [List.map_cons, List.map_cons, List.map_cons, List.map_cons, List.cons.injEq,
        List.cons.injEq] at told
      rw [changesIn_delimit, changesIn_delimit, told.1, told.2.1]
      rfl
    rw [twice, ← sum]
    exact .pure (selectText_shows weightless)

theorem mathCall_shows (told : texts.map changesIn = args.map (Expr.written table)) :
    Yields table (mathCall (table.typesOf args) method args texts)
      (Shows opens (factor table method args * Expr.writtenOf table args)) := by
  have joined := changesIn_join told
  have once {text : String} (other : ["max", "min"].contains method = false)
      (same : changesIn text = Expr.writtenOf table args) :
      factor table method args * Expr.writtenOf table args = changesIn text := by
    rw [factor_eq_one other, Nat.one_mul, same]
  have single {x : String} (one : texts = [x]) : changesIn x = Expr.writtenOf table args := by
    rw [← joined, one, join, String.intercalate_singleton]
  unfold mathCall
  split
  next x =>
    rw [once (by decide) (single rfl)]
    dsimp only
    split
    · exact libraryCall_shows .math (by decide)
    · refine libraryCall_shows .stdlib ?_
      split <;> decide
  case h_2 | h_3 => exact selection_shows (by decide) (by decide) (by decide) told
  next x =>
    rw [once (by decide) (single rfl)]
    exact libraryCall_shows .math (by decide)
  · have quotient : changesIn "((double) rand() / RAND_MAX)" = 0 := by decide
    rw [once (by decide) (quotient.trans joined)]
    apply (Yields.require .stdlib).bind
    intro _ _
    exact Yields.pure (.of_begins rfl (by decide))
  · split
    next known =>
      have names : (mathFunctions.all fun name => !(["max", "min"].contains name) &&
          (isSignless name && beginsPlain name)) = true := by decide
      have named := List.all_eq_true.mp names method known
      rw [Bool.and_eq_true, Bool.not_eq_true'] at named
      rw [once named.1 joined]
      exact libraryCall_shows .math named.2
    next => exact Yields.refuse _

theorem stringCall_shows (told : texts.map changesIn = args.map (Expr.written table))
    {receiver : Attempt String} (receives : Yields table receiver (Shows opens count)) :
    Yields table (stringCall method texts receiver)
      (Shows opens (count + Expr.writtenOf table args)) := by
  rw [← changesIn_join told]
  unfold stringCall
  split
  · apply receives.bind
    intro text shows
    rw [← shows.1]
    exact libraryCall_shows .string (by decide)
  next i =>
    apply receives.bind
    intro text shows
    refine .pure (.subscript shows ?_)
    rw [join, String.intercalate_singleton]
  next other =>
    apply receives.bind
    intro text shows
    apply (Yields.require .string).bind
    intro _ _
    refine .pure (.of_begins ?_ ?_)
    · rw [changesIn_after (by decide), changesIn_around (by decide), changesIn_before (by decide),
        shows.1, join, String.intercalate_singleton]
    · simp only [String.append_assoc]
      exact beginsPlain_append (by decide) _
  · exact .refuse _

theorem isSelection_eq_false (length : args.length = count)
    (other : isMathCall method count = false) : Expr.isSelection table method args = false := by
  refine Bool.eq_false_iff.mpr fun selection => ?_
  simp only [Expr.isSelection, Bool.and_eq_true, decide_eq_true_iff, List.contains_cons,
    List.contains_nil, Bool.or_false, Bool.or_eq_true, beq_iff_eq] at selection
  obtain ⟨⟨rfl | rfl, two⟩, _⟩ := selection
  · rw [← length, two] at other
    cases other
  · rw [← length, two] at other
    cases other

theorem callText_shows {owner : Option String}
    (told : texts.map changesIn = args.map (Expr.written table)) (still : owner.isSome → count = 0)
    {receiver : Attempt String} (receives : Yields table receiver (Shows opens count)) :
    Yields table (callText (table.typesOf args) owner method args texts receiver)
      (Shows opens (count + (if owner = some "Math" then factor table method args else 1) *
        Expr.writtenOf table args)) := by
  have length : args.length = texts.length := by simpa using (congrArg List.length told).symm
  unfold callText
  split
  next math =>
    rw [Bool.and_eq_true, decide_eq_true_iff] at math
    rw [math.1] at still ⊢
    rw [still rfl, Nat.zero_add, if_pos rfl]
    exact mathCall_shows told
  next other =>
    have once : (if owner = some "Math" then factor table method args else 1) = 1 := by
      split
      next math =>
        have missing : isMathCall method texts.length = false := by simpa [math] using other
        rw [factor, isSelection_eq_false length missing]
        rfl
      next => rfl
    rw [once, Nat.one_mul]
    have joined := changesIn_join told
    split
    case h_1 | h_2 | h_3 =>
      rw [still rfl, Nat.zero_add, ← joined, join, String.intercalate_singleton]
      exact libraryCall_shows .stdlib (by decide)
    · exact stringCall_shows told receives

theorem changesIn_unsignedName (type : ValueType) : changesIn (unsignedName type) = 0 := by
  unfold unsignedName
  split <;> decide

theorem changesIn_compound {op : BinaryOp} (plain : op ≠ .shiftRightUnsigned) :
    changesIn (op.symbol ++ "=") = 1 := by
  cases op with
  | shiftRightUnsigned => exact absurd rfl plain
  | _ => decide

theorem assignmentText_shows (op : AssignOp) {target value : Expr} {t v : String}
    (first : changesIn t = target.written table) (second : changesIn v = value.written table) :
    Yields table (liftM (assignmentText op (table.typeOf target) value t v))
      fun text => changesIn text = (Expr.assign op target value).written table := by
  have equal : changesIn " = " = 1 := by decide
  refine .lift fun cx text after ends => ?_
  unfold assignmentText at ends
  split at ends
  · cases ends
    refine ⟨rfl, ?_⟩
    rw [changesIn_between (by decide), equal, first, second, Expr.written]
    simp [Expr.rereads]
    omega
  · have cast : changesIn " = (" = 1 := by decide
    cases ends
    refine ⟨rfl, ?_⟩
    rw [changesIn_around (by decide), changesIn_around (by decide), changesIn_between (by decide),
      cast, changesIn_unsignedName, changesIn_delimit, first, second, Expr.written]
    simp [Expr.rereads]
    omega
  next op plain =>
    split at ends
    next floating =>
      have call : changesIn " = fmod(" = 1 := by decide
      cases ends
      refine ⟨rfl, ?_⟩
      rw [changesIn_after (by decide), changesIn_around (by decide), changesIn_between (by decide),
        call, first, second, Expr.written]
      rw [Bool.and_eq_true, decide_eq_true_iff] at floating
      simp [Expr.rereads, floating]
      omega
    next whole =>
      cases ends
      refine ⟨rfl, ?_⟩
      have spaced : t ++ " " ++ op.symbol ++ "= " ++ v =
          t ++ " " ++ (op.symbol ++ "=") ++ " " ++ v := by
        have mark : "= " = "=" ++ " " := by decide
        rw [mark]
        simp only [String.append_assoc]
      have once : Expr.rereads table (.compound op) target = false := by
        simpa [Expr.rereads] using And.intro plain whole
      rw [spaced, changesIn_spaced, changesIn_compound plain, first, second, Expr.written, once,
        if_neg Bool.false_ne_true]
      omega

theorem checkMeasured_yields (symbol : Symbol) :
    Yields table (checkMeasured symbol) fun _ => True := by
  have refuses (reason : String) : Yields table
      (Attempt.invalid "length" reason : Attempt Unit) fun _ => False := Yields.refuse _
  apply Yields.ite
  · intro _
    apply (refuses _).bind
    intro _ impossible
    cases impossible
  · intro _
    apply Yields.ite
    · intro _
      exact .warn _
    · intro _
      exact .pure True.intro

theorem sizeQuotient_shows (text : String) :
    Shows opens (2 * changesIn text) (sizeQuotient text) := by
  refine .of_begins ?_ ?_
  · rw [sizeQuotient, changesIn_after (by decide), changesIn_around (by decide),
      changesIn_before (by decide)]
    omega
  · simp only [sizeQuotient, String.append_assoc]
    exact beginsPlain_append (by decide) _

theorem arrayLength_shows {array : Expr} {operand : Attempt String}
    (counts : Yields table operand fun text => changesIn text = array.written table) :
    Yields table (arrayLength array operand)
      (Shows opens ((Expr.member array "length").written table)) := by
  have measured : (Expr.member array "length").written table =
      2 * ((Expr.aliasText? table array).map changesIn).getD (array.written table) := by
    rw [Expr.written, if_pos rfl]
  rw [measured, Expr.aliasText?]
  apply Yields.symbols
  cases array.ident?.bind table.lookup with
  | none =>
    apply counts.bind
    intro text counted
    exact .pure (counted ▸ sizeQuotient_shows text)
  | some symbol =>
    have finished (text : String) : Yields table (do
        checkMeasured symbol
        return sizeQuotient text) (Shows opens (2 * changesIn text)) := by
      apply (checkMeasured_yields symbol).bind
      intro _ _
      exact .pure (sizeQuotient_shows text)
    dsimp only [Option.bind_some]
    cases symbol.aliasOf with
    | none =>
      apply counts.bind
      intro text counted
      exact counted ▸ finished text
    | some text => exact finished text

theorem memberText_shows (object : Expr) {field : String} (other : field ≠ "length") :
    Yields table (memberText object.ident? field)
      (Shows opens ((Expr.member object field).written table)) := by
  unfold memberText
  cases found : constant? object.ident? field with
  | none => exact .refuse _
  | some entry =>
    obtain ⟨capability, text⟩ := entry
    apply (Yields.require capability).bind
    intro _ _
    have known : (changesIn text = 0 && beginsPlain text) = true := by
      unfold constant? at found
      split at found
      all_goals
        cases found
        try decide
    rw [Bool.and_eq_true, decide_eq_true_iff] at known
    refine .pure (.of_begins (known.1.trans ?_) known.2)
    rw [Expr.written, if_neg other]
    cases object with
    | ident name => rfl
    | _ => cases found

theorem typeName_shows (type : ValueType) :
    Yields table (typeName type) fun name => changesIn name = 0 := by
  cases type with
  | boolean =>
    apply (Yields.require .bool).bind
    intro _ _
    exact .pure (by decide)
  | unknown => exact .refuse _
  | _ => exact .pure (by decide)

theorem update_tells (op : UpdateOp) (leading : Bool) {target : Expr} {text : String}
    (tells : Tells table target text) : Tells table (.update op leading target)
      (if leading then op.symbol ++ text else text ++ op.symbol) := by
  obtain ⟨c, step, spelled⟩ : ∃ c, (c = '+' ∨ c = '-') ∧ op.symbol.toList = [c, c] := by
    cases op with
    | increment => exact ⟨'+', .inl rfl, rfl⟩
    | decrement => exact ⟨'-', .inr rfl, rfl⟩
  have pair : Doubled [c, c] := .pair step (.rest rfl)
  cases leading with
  | true =>
    refine .of_shows ⟨?_, ?_⟩
    · rw [if_pos rfl, changesIn, String.toList_append, spelled]
      exact (countFrom_nil_pair step _).trans (congrArg (1 + ·) tells.counts)
    · intro closed
      rw [if_pos rfl, String.toList_append, spelled]
      exact pair.append (tells.alone closed)
  | false =>
    refine .of_shows ⟨?_, ?_⟩
    · rw [if_neg Bool.false_ne_true, changesIn, String.toList_append, spelled,
        countFrom_append_pair step _ (by decide), Nat.add_comm]
      exact congrArg (1 + ·) tells.counts
    · intro closed
      rw [if_neg Bool.false_ne_true, String.toList_append, spelled]
      exact (tells.alone closed).append pair

theorem changesIn_shifted {left right : Expr} {l r : String} (type : ValueType)
    (first : Tells table left l) (second : Tells table right r) :
    changesIn ("(" ++ unsignedName type ++ ") " ++ delimit left l ++ " >> " ++ delimit right r) =
      left.written table + right.written table := by
  rw [changesIn_around (by decide), changesIn_around (by decide), changesIn_before (by decide),
    changesIn_unsignedName, first.delimit.1, second.delimit.1, Nat.zero_add]

theorem changesIn_operation {left right : Expr} {l r : String} (weightless : changesIn sign = 0)
    (first : Tells table left l) (second : Tells table right r) :
    changesIn (delimit left l ++ " " ++ sign ++ " " ++ delimit right r) =
      left.written table + right.written table := by
  rw [changesIn_spaced, weightless, first.delimit.1, second.delimit.1]
  rfl

theorem exprs_tell {es : List Expr} (each : ∀ e ∈ es, Yields table (expr e) (Tells table e)) :
    Yields table (exprs es) fun texts => texts.map changesIn = es.map (Expr.written table) := by
  induction es with
  | nil => exact .pure rfl
  | cons e rest ih =>
    obtain ⟨first, others⟩ := List.forall_mem_cons.mp each
    apply first.bind
    intro text tells
    apply (ih others).bind
    intro texts told
    refine .pure ?_
    rw [List.map_cons, List.map_cons, tells.counts, told]

/-- The text of an expression shows each of its changes, once for each time it is written. -/
theorem expr_tells (e : Expr) (plain : ∀ inner : Expr, inner.Occurs e → inner.Plain table) :
    Yields table (expr e) (Tells table e) := by
  induction e using Expr.induction_parts with | step e ih => ?_
  have each (part : Expr) (direct : part ∈ e.parts) : Yields table (expr part) (Tells table part) :=
    ih part direct fun inner => plain inner ∘ .part direct
  match e, plain, each with
  | .literal value, plain, _ => exact literal_tells value (plain _ (.here _))
  | .ident name, plain, _ =>
    exact .symbols (.pure (.of_signless (plain _ (.here _)) rfl))
  | .binary op left right, _, each =>
    have tellsLeft := each left (by simp [Expr.parts])
    have tellsRight := each right (by simp [Expr.parts])
    apply Yields.symbols
    apply Yields.ite
    · intro _
      exact .refuse _
    intro _
    apply tellsLeft.bind
    intro l first
    apply tellsRight.bind
    intro r second
    split
    · exact .pure (.bare rfl (changesIn_shifted _ first second))
    · apply Yields.ite
      · intro _
        have told : [delimit left l, delimit right r].map changesIn =
            [left, right].map (Expr.written table) := by
          simp only [List.map_cons, List.map_nil, first.delimit.1, second.delimit.1]
        refine .mono (libraryCall_shows .math (by decide))
          fun text (shown : Shows true _ text) => ?_
        exact .bare rfl (shown.1.trans (changesIn_join told))
      · intro _
        exact .pure (.bare rfl (changesIn_operation (by cases op <;> decide) first second))
  | .unary op operand, plain, each =>
    have closed : (!operand.isCompound && operand.opensBare) = false := plain _ (.here _)
    apply (each operand (by simp [Expr.parts])).bind
    intro text tells
    refine .pure (.bare rfl ?_)
    obtain ⟨counts, alone⟩ := tells.delimit
    rw [changesIn, String.toList_append]
    refine Eq.trans ?_ counts
    cases op with
    | bitNot => exact (countFrom_cons (by decide) [] _).trans (Nat.zero_add _)
    | _ => exact (alone closed).countFrom_eq (by decide)
  | .logical op left right, _, each =>
    apply (each left (by simp [Expr.parts])).bind
    intro l first
    apply (each right (by simp [Expr.parts])).bind
    intro r second
    exact .pure (.bare rfl (changesIn_operation (by cases op <;> decide) first second))
  | .compare op left right, _, each =>
    have tellsLeft := each left (by simp [Expr.parts])
    have tellsRight := each right (by simp [Expr.parts])
    apply Yields.symbols
    apply Yields.ite
    · intro _
      apply (Yields.warn _).bind
      intro _ _
      apply (Yields.require .string).bind
      intro _ _
      apply tellsLeft.bind
      intro l first
      apply tellsRight.bind
      intro r second
      refine .pure (.bare rfl ?_)
      have sign : changesIn op.symbol = 0 := by cases op <;> decide
      rw [changesIn_after (by decide), changesIn_around (by decide), changesIn_around (by decide),
        changesIn_before (by decide), sign, first.counts, second.counts, Expr.written, Nat.add_zero]
    · intro _
      apply tellsLeft.bind
      intro l first
      apply tellsRight.bind
      intro r second
      exact .pure (.bare rfl (changesIn_operation (by cases op <;> decide) first second))
  | .assign op target value, _, each =>
    have tellsTarget := each target (by simp [Expr.parts])
    have tellsValue := each value (by simp [Expr.parts])
    apply Yields.symbols
    apply Yields.ite
    · intro _
      exact .refuse _
    intro _
    apply tellsTarget.bind
    intro t first
    apply tellsValue.bind
    intro v second
    exact (assignmentText_shows op first.counts second.counts).mono fun text => .bare rfl
  | .update op leading target, _, each =>
    apply (each target (by simp [Expr.parts])).bind
    intro text tells
    exact .pure (update_tells op leading tells)
  | .index array position, _, each =>
    apply (each array (by simp [Expr.parts])).bind
    intro a first
    apply (each position (by simp [Expr.parts])).bind
    intro i second
    exact .pure (.of_shows (first.delimit.subscript second.counts))
  | .member object field, _, each =>
    have tells := each object (by simp [Expr.parts])
    apply Yields.ite
    · rintro rfl
      refine .mono (arrayLength_shows ?_) fun text => .of_shows
      apply tells.bind
      intro text tells
      exact .pure tells.delimit.1
    · intro other
      exact (memberText_shows object other).mono fun text => .of_shows
  | .arrayLiteral items, _, each =>
    apply (exprs_tell fun item (member : item ∈ items) => each item member).bind
    intro texts told
    refine .pure (.of_shows (.of_begins ?_ ?_))
    · rw [changesIn_after (by decide), changesIn_before (by decide), changesIn_join told,
        Expr.written]
    · exact beginsPlain_append (beginsPlain_append (by decide) _) _
  | .ternary condition onTrue onFalse, _, each =>
    apply (each condition (by simp [Expr.parts])).bind
    intro c first
    apply (each onTrue (by simp [Expr.parts])).bind
    intro a second
    apply (each onFalse (by simp [Expr.parts])).bind
    intro b third
    refine .pure (.bare rfl ?_)
    rw [changesIn_around (by decide), changesIn_around (by decide), first.delimit.1,
      second.delimit.1, third.delimit.1, Expr.written, Nat.add_assoc]
  | .cast type operand, _, each =>
    apply (typeName_shows type).bind
    intro name none
    apply (each operand (by simp [Expr.parts])).bind
    intro text tells
    refine .pure (.of_shows (.of_begins ?_ ?_))
    · rw [changesIn_around (by decide), changesIn_before (by decide), none, tells.delimit.1,
        Expr.written, Nat.zero_add]
    · simp only [String.append_assoc]
      exact beginsPlain_append (by decide) _
  | .call none method args, _, each =>
    apply Yields.symbols
    apply (exprs_tell fun arg (member : arg ∈ args) => each arg member).bind
    intro texts told
    have refuses : Yields table (nonString method : Attempt String) (Shows false 0) :=
      Yields.refuse _
    refine .mono (callText_shows told (fun _ => rfl) refuses) fun text shown => .of_shows ?_
    rwa [Nat.zero_add, if_neg (by decide), Nat.one_mul] at shown
  | .call (some receiver) method args, _, each =>
    apply Yields.symbols
    apply (exprs_tell fun arg (member : arg ∈ args) =>
      each arg (List.mem_append_right _ member)).bind
    intro texts told
    have still : receiver.ident?.isSome → receiver.written table = 0 := by
      cases receiver with
      | ident name => exact fun _ => rfl
      | _ => exact fun named => by cases named
    have received : Yields table (if table.typeOf receiver = .string then do
          return delimit receiver (← expr receiver)
        else nonString method)
        (Shows (Expr.call (some receiver) method args).opensBare (receiver.written table)) := by
      apply Yields.ite
      · intro _
        apply (each receiver (by simp [Expr.parts])).bind
        intro text tells
        exact .pure tells.delimit
      · intro _
        exact .refuse _
    refine .mono (callText_shows told still received) fun text shown => .of_shows ?_
    have times : (if Expr.selects table receiver method args then 2 else 1) =
        if receiver.ident? = some "Math" then factor table method args else 1 := by
      by_cases math : receiver.ident? = some "Math" <;> simp [Expr.selects, factor, math]
    rwa [Expr.written, times]

/-- The C text of an expression shows each change that the expression makes, and exactly once
exactly if no change stands in an operand that is written twice. -/
theorem changes_rendered {cx after : Context} {e : Expr} {text : String}
    (plain : ∀ inner : Expr, inner.Occurs e → inner.Plain cx.symbols)
    (rendered : (expr e).run.run cx = .ok (.ok text, after)) :
    changesIn text = e.written cx.symbols ∧ e.changes ≤ changesIn text ∧
      (changesIn text = e.changes ↔ ∀ inner : Expr, inner.Occurs e → inner.Single cx.symbols) := by
  obtain ⟨_, tells⟩ := expr_tells e plain cx text after rfl rendered
  rw [tells.counts]
  exact ⟨rfl, Expr.changes_le_written cx.symbols e, Expr.written_eq_changes_iff cx.symbols e⟩

/-- A step before a minus sign inside an assignment: two signs that do not run into each other. -/
theorem changes_rendered_minus :
    let cx : Context :=
      { target := .c, symbols := { inner := [.scalar "x" .int, .scalar "i" .int] } }
    let e : Expr :=
      .assign (.compound .add) (.ident "x") (.unary .neg (.update .increment true (.ident "i")))
    (∃ result after, (expr e).run.run cx = .ok (result, after) ∧ result = .ok "x += -++i" ∧
      changesIn "x += -++i" = e.changes) ∧
    ∀ inner : Expr, inner.Occurs e → inner.Single cx.symbols := by
  intro cx e
  have run : ∃ result after, (expr e).run.run cx = .ok (result, after) ∧
      result = .ok "x += -++i" ∧ changesIn "x += -++i" = e.changes := by decide +kernel
  refine ⟨run, ?_⟩
  obtain ⟨_, after, rendered, rfl, same⟩ := run
  refine (changes_rendered ?_ rendered).2.2.mp same
  rintro inner (_ | ⟨direct, inside⟩)
  · exact True.intro
  rcases List.mem_cons.mp direct with rfl | direct
  · rcases inside with _ | ⟨⟨⟩, _⟩
    exact (by decide : isSignless "x" = true)
  cases List.mem_singleton.mp direct
  rcases inside with _ | ⟨direct, inside⟩
  · show (!(Expr.update _ _ (.ident "i")).isCompound &&
      (Expr.update _ _ (.ident "i")).opensBare) = false
    rfl
  cases List.mem_singleton.mp direct
  rcases inside with _ | ⟨direct, inside⟩
  · exact True.intro
  cases List.mem_singleton.mp direct
  rcases inside with _ | ⟨⟨⟩, _⟩
  exact (by decide : isSignless "i" = true)

/-- The text of an expression shows more changes than the expression makes. -/
def Multiplies (cx : Context) (e : Expr) : Prop :=
  ∃ result after, (expr e).run.run cx = .ok (result, after) ∧
    result.toOption.any (fun text => e.changes < changesIn text) = true

instance decidableMultiplies (cx : Context) (e : Expr) : Decidable (Multiplies cx e) :=
  inferInstanceAs (Decidable (∃ _ _, _ ∧ _))

/-- A step in an argument of an integer maximum, in the target of an unsigned shift or a floating
remainder, and in an array whose length is taken, directly or through an alias. Besides, a sign that
runs into that of an operation which is updated, and a variable that is written with an operator. -/
theorem changes_multiplied :
    let cx : Context :=
      { target := .c
        symbols :=
          { inner := [.scalar "x" .int, .scalar "i" .int, .array "a" .int 1 none,
              .array "d" .double 1 none, .array "m" .int 2 none,
              { Symbol.array "row" .int 1 none with aliasOf := some "m[i++]" },
              { Symbol.scalar "y" .int with targetName := "i++" }] } }
    let step : Expr := .update .increment false (.ident "i")
    Multiplies cx (.assign .plain (.ident "x")
      (.call (some (.ident "Math")) "max" [step, .literal (.int "1")])) ∧
    Multiplies cx (.assign (.compound .shiftRightUnsigned) (.index (.ident "a") step)
      (.literal (.int "1"))) ∧
    Multiplies cx (.assign (.compound .mod) (.index (.ident "d") step) (.literal (.int "2"))) ∧
    Multiplies cx (.member (.index (.ident "m") step) "length") ∧
    Multiplies cx (.member (.ident "row") "length") ∧
    Multiplies cx (.unary .neg (.update .decrement true (.unary .neg (.ident "x")))) ∧
    Multiplies cx (.ident "y") := by decide +kernel

end C

end Retarget
