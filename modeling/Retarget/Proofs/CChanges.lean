import Retarget.Proofs.PythonEffects

/-!
# Changes and what is written twice

The assignments and updates in an expression, and the number of operators that its C text shows of
them.
-/

namespace Retarget

open Text

section Signs

def operatorChars : List Char :=
  ['+', '-', '*', '/', '%', '&', '|', '^', '<', '>', '=', '!']

def isOperatorChar (c : Char) : Bool :=
  operatorChars.contains c

def operatorSigns : List (List Char) :=
  ["+", "++", "+=", "-", "--", "-=", "->", "*", "*=", "/", "/=", "%", "%=", "&", "&&", "&=", "|",
    "||", "|=", "^", "^=", "<", "<<", "<=", "<<=", ">", ">>", ">=", ">>=", "=", "==", "!",
    "!="].map String.toList

def signWeight (sign : List Char) : Nat :=
  if (["++", "--", "=", "+=", "-=", "*=", "/=", "%=", "&=", "|=", "^=", "<<=",
      ">>="].map String.toList).contains sign then 1 else 0

/-- The number of operators in a text that change a variable, after `sign` was read of an operator.
Each operator is as long as it can be. -/
def countFrom (sign : List Char) : List Char → Nat
  | [] => signWeight sign
  | c :: cs =>
    if isOperatorChar c then
      if operatorSigns.contains (sign ++ [c]) then countFrom (sign ++ [c]) cs
      else signWeight sign + countFrom [c] cs
    else signWeight sign + countFrom [] cs

def changesIn (text : String) : Nat :=
  countFrom [] text.toList

def isSignless (text : String) : Bool :=
  text.toList.all fun c => !isOperatorChar c

variable {sign : List Char} {c : Char}

theorem countFrom_cons (plain : isOperatorChar c = false) (sign rest : List Char) :
    countFrom sign (c :: rest) = signWeight sign + countFrom [] rest := by
  rw [countFrom, plain, if_neg Bool.false_ne_true]

theorem countFrom_append_cons (plain : isOperatorChar c = false) (sign before rest : List Char) :
    countFrom sign (before ++ c :: rest) = countFrom sign before + countFrom [] rest := by
  induction before generalizing sign with
  | nil => exact countFrom_cons plain sign rest
  | cons first before ih =>
    rw [List.cons_append, countFrom, countFrom]
    split
    · split
      · exact ih _
      · rw [ih, Nat.add_assoc]
    · rw [ih, Nat.add_assoc]

theorem contains_singleton (sign : isOperatorChar c = true) :
    operatorSigns.contains [c] = true := by
  have each : (operatorChars.all fun c => operatorSigns.contains [c]) = true := by decide
  exact List.all_eq_true.mp each c (List.contains_iff_mem.mp sign)

theorem countFrom_pair (step : c = '+' ∨ c = '-') (rest : List Char) :
    countFrom [c, c] rest = 1 + countFrom [] rest := by
  have weight : signWeight [c, c] = 1 := by
    rcases step with rfl | rfl <;> rfl
  cases rest with
  | nil => exact weight
  | cons next rest =>
    cases found : isOperatorChar next with
    | false =>
      rw [countFrom_cons found, countFrom_cons found, weight]
      exact congrArg (1 + ·) (Nat.zero_add _).symm
    | true =>
      have ends : operatorSigns.contains ([c, c] ++ [next]) = false := by
        rcases step with rfl | rfl <;> simp [operatorSigns]
      rw [countFrom, countFrom, if_pos found, if_pos found, ends, if_neg Bool.false_ne_true,
        List.nil_append, contains_singleton found, if_pos rfl, weight]

theorem countFrom_nil_pair (step : c = '+' ∨ c = '-') (rest : List Char) :
    countFrom [] (c :: c :: rest) = 1 + countFrom [] rest := by
  refine Eq.trans ?_ (countFrom_pair step rest)
  rcases step with rfl | rfl <;> rfl

theorem countFrom_append_pair (step : c = '+' ∨ c = '-') (before : List Char)
    (known : ([] :: operatorSigns).contains sign = true) :
    countFrom sign (before ++ [c, c]) = countFrom sign before + 1 := by
  induction before generalizing sign with
  | nil =>
    have table : (([] :: operatorSigns).all fun sign =>
        countFrom sign ['+', '+'] = signWeight sign + 1 &&
          countFrom sign ['-', '-'] = signWeight sign + 1) = true := by decide
    have both := List.all_eq_true.mp table sign (by simpa using known)
    rw [Bool.and_eq_true, decide_eq_true_iff, decide_eq_true_iff] at both
    rcases step with rfl | rfl
    · exact both.1
    · exact both.2
  | cons first before ih =>
    rw [List.cons_append, countFrom, countFrom]
    split
    next found =>
      split
      next longer => exact ih (by simp only [List.contains_cons, longer, Bool.or_true])
      next =>
        rw [ih, Nat.add_assoc]
        rw [List.contains_cons, contains_singleton found, Bool.or_true]
    next => rw [ih rfl, Nat.add_assoc]

/-- A text of which no operator at the beginning is a part of a longer one: pairs of signs, and then
nothing that a sign could go on with. -/
inductive Doubled : List Char → Prop where
  | rest {cs : List Char} (plain : cs.head?.all (fun c => !isOperatorChar c) = true) : Doubled cs
  | pair {c : Char} {cs : List Char} (step : c = '+' ∨ c = '-') (doubled : Doubled cs) :
      Doubled (c :: c :: cs)

theorem Doubled.countFrom_eq {cs : List Char} (doubled : Doubled cs)
    (single : [[], ['+'], ['-'], ['!']].contains sign = true) :
    countFrom sign cs = countFrom [] cs := by
  induction doubled generalizing sign with
  | @rest cs plain =>
    have weightless : signWeight sign = 0 := by
      have table : ([[], ['+'], ['-'], ['!']].all fun sign => signWeight sign = 0) = true := by
        decide
      simpa using List.all_eq_true.mp table sign (by simpa using single)
    cases cs with
    | nil => exact weightless
    | cons c cs =>
      have plain : isOperatorChar c = false := by simpa using plain
      rw [countFrom_cons plain, countFrom_cons plain, weightless]
      rfl
  | @pair c cs step _ ih =>
    have alone := countFrom_nil_pair step cs
    rw [alone]
    simp only [List.contains_cons, beq_iff_eq, Bool.or_eq_true, List.contains_nil,
      Bool.false_eq_true, or_false] at single
    rcases step with rfl | rfl <;> rcases single with rfl | rfl | rfl | rfl
    · exact alone
    · exact congrArg (1 + ·) (@ih ['+'] rfl)
    · exact (Nat.zero_add _).trans (countFrom_pair (.inl rfl) cs)
    · exact (Nat.zero_add _).trans (countFrom_pair (.inl rfl) cs)
    · exact alone
    · exact (Nat.zero_add _).trans (countFrom_pair (.inr rfl) cs)
    · exact congrArg (1 + ·) (@ih ['-'] rfl)
    · exact (Nat.zero_add _).trans (countFrom_pair (.inr rfl) cs)

end Signs

section Texts

variable {left right mark text : String}

def beginsPlain (text : String) : Bool :=
  text.toList.head?.any fun c => !isOperatorChar c

def endsPlain (text : String) : Bool :=
  text.toList.getLast?.all fun c => !isOperatorChar c

theorem changesIn_append (apart : endsPlain left = true ∨ beginsPlain right = true) :
    changesIn (left ++ right) = changesIn left + changesIn right := by
  unfold changesIn
  rw [String.toList_append]
  rcases apart with plain | plain
  · unfold endsPlain at plain
    rcases List.eq_nil_or_concat left.toList with empty | ⟨before, c, ended⟩
    · rw [empty, List.nil_append]
      exact (Nat.zero_add _).symm
    · rw [ended] at plain ⊢
      have plain : isOperatorChar c = false := by simpa using plain
      rw [List.concat_eq_append, List.append_assoc, List.singleton_append,
        countFrom_append_cons plain, countFrom_append_cons plain]
      rfl
  · unfold beginsPlain at plain
    cases begun : right.toList with
    | nil =>
      rw [begun] at plain
      cases plain
    | cons c rest =>
      rw [begun] at plain
      have plain : isOperatorChar c = false := by simpa using plain
      rw [countFrom_append_cons plain, countFrom_cons plain]
      exact congrArg _ (Nat.zero_add _).symm

theorem beginsPlain_append (begins : beginsPlain left = true) (right : String) :
    beginsPlain (left ++ right) = true := by
  unfold beginsPlain at begins ⊢
  rw [String.toList_append]
  cases chars : left.toList with
  | nil =>
    rw [chars] at begins
    cases begins
  | cons c rest =>
    rw [chars] at begins
    exact begins

theorem changesIn_between (apart : (beginsPlain mark && endsPlain mark) = true)
    (left right : String) :
    changesIn (left ++ mark ++ right) = changesIn left + changesIn mark + changesIn right := by
  obtain ⟨begins, ends⟩ := (Bool.and_eq_true _ _).mp apart
  rw [String.append_assoc, changesIn_append (.inr (beginsPlain_append begins right)),
    changesIn_append (.inl ends), Nat.add_assoc]

/-! A mark changes nothing if it holds no sign that does and no sign beside it goes on in it. -/

theorem changesIn_before (quiet : endsPlain mark = true ∧ changesIn mark = 0) (text : String) :
    changesIn (mark ++ text) = changesIn text := by
  rw [changesIn_append (.inl quiet.1), quiet.2, Nat.zero_add]

theorem changesIn_after (quiet : beginsPlain mark = true ∧ changesIn mark = 0) (text : String) :
    changesIn (text ++ mark) = changesIn text := by
  rw [changesIn_append (.inr quiet.1), quiet.2, Nat.add_zero]

theorem changesIn_around (quiet : (beginsPlain mark && endsPlain mark) = true ∧ changesIn mark = 0)
    (left right : String) : changesIn (left ++ mark ++ right) = changesIn left + changesIn right := by
  rw [changesIn_between quiet.1, quiet.2, Nat.add_zero]

theorem changesIn_spaced (left sign right : String) :
    changesIn (left ++ " " ++ sign ++ " " ++ right) =
      changesIn left + changesIn sign + changesIn right := by
  rw [changesIn_around (by decide), changesIn_around (by decide)]

theorem changesIn_bracketed (text : String) : changesIn (bracketed text) = changesIn text := by
  rw [bracketed, changesIn_after (by decide), changesIn_before (by decide)]

theorem changesIn_of_signless (signless : isSignless text = true) : changesIn text = 0 := by
  unfold isSignless at signless
  unfold changesIn
  generalize text.toList = chars at signless ⊢
  induction chars with
  | nil => rfl
  | cons c rest ih =>
    rw [List.all_cons, Bool.and_eq_true, Bool.not_eq_true'] at signless
    rw [countFrom_cons signless.1, ih signless.2]
    rfl

theorem isSignless_append : isSignless (left ++ right) = (isSignless left && isSignless right) := by
  unfold isSignless
  rw [String.toList_append, List.all_append]

theorem Doubled.of_begins (begins : beginsPlain text = true) : Doubled text.toList := by
  unfold beginsPlain at begins
  refine .rest ?_
  cases chars : text.toList with
  | nil => rfl
  | cons c rest =>
    rw [chars] at begins
    exact begins

theorem Doubled.of_signless (signless : isSignless text = true) : Doubled text.toList := by
  unfold isSignless at signless
  refine .rest ?_
  cases chars : text.toList with
  | nil => rfl
  | cons c rest =>
    rw [chars, List.all_cons, Bool.and_eq_true] at signless
    exact signless.1

theorem Doubled.append {cs ds : List Char} (first : Doubled cs) (second : Doubled ds) :
    Doubled (cs ++ ds) := by
  induction first with
  | @rest cs plain =>
    cases cs with
    | nil => exact second
    | cons c cs => exact .rest plain
  | pair step _ ih => exact .pair step ih

end Texts

/-! ## Changes -/

namespace Expr

mutual

def changes : Expr → Nat
  | literal _ | ident _ => 0
  | binary _ left right | logical _ left right | compare _ left right =>
    left.changes + right.changes
  | unary _ operand | cast _ operand => operand.changes
  | assign _ target value => 1 + (target.changes + value.changes)
  | update _ _ target => 1 + target.changes
  | index array position => array.changes + position.changes
  | member object _ => object.changes
  | arrayLiteral items => changesOf items
  | ternary condition onTrue onFalse => condition.changes + (onTrue.changes + onFalse.changes)
  | call none _ args => changesOf args
  | call (some receiver) _ args => receiver.changes + changesOf args

def changesOf : List Expr → Nat
  | [] => 0
  | e :: rest => e.changes + changesOf rest

end

def aliasText? (table : SymbolTable) (array : Expr) : Option String :=
  (array.ident?.bind table.lookup).bind (·.aliasOf)

def rereads (table : SymbolTable) (op : AssignOp) (target : Expr) : Bool :=
  op = .compound .shiftRightUnsigned || op = .compound .mod && (table.typeOf target).isFloating

def isSelection (table : SymbolTable) (method : String) (args : List Expr) : Bool :=
  ["max", "min"].contains method && args.length = 2 &&
    !(table.typesOf args).any ValueType.isFloating

/-- Whether a call writes each of its arguments a second time. -/
def selects (table : SymbolTable) (receiver : Expr) (method : String) (args : List Expr) : Bool :=
  receiver.ident? = some "Math" && isSelection table method args

mutual

/-- The number of operators that change a variable in the C text of an expression. -/
def written (table : SymbolTable) : Expr → Nat
  | literal _ | ident _ => 0
  | binary _ left right | logical _ left right | compare _ left right =>
    left.written table + right.written table
  | unary _ operand | cast _ operand => operand.written table
  | assign op target value =>
    1 + ((if rereads table op target then 2 else 1) * target.written table + value.written table)
  | update _ _ target => 1 + target.written table
  | index array position => array.written table + position.written table
  | member object field =>
    if field = "length" then
      2 * ((aliasText? table object).map changesIn).getD (object.written table)
    else object.written table
  | arrayLiteral items => writtenOf table items
  | ternary condition onTrue onFalse =>
    condition.written table + (onTrue.written table + onFalse.written table)
  | call none _ args => writtenOf table args
  | call (some receiver) method args =>
    receiver.written table +
      (if selects table receiver method args then 2 else 1) * writtenOf table args

/-- The number of operators that change a variable in the C texts of a list of expressions. -/
def writtenOf (table : SymbolTable) : List Expr → Nat
  | [] => 0
  | e :: rest => e.written table + writtenOf table rest

end

def repeated (table : SymbolTable) : Expr → List Expr
  | assign op target _ => if rereads table op target then [target] else []
  | member object field => if field = "length" then [object] else []
  | call (some receiver) method args => if selects table receiver method args then args else []
  | _ => []

def measured? (table : SymbolTable) : Expr → Option String
  | member object field => if field = "length" then aliasText? table object else none
  | _ => none

theorem repeated_subset (table : SymbolTable) (e : Expr) : e.repeated table ⊆ e.parts := by
  intro part member
  unfold repeated at member
  split at member
  case h_4 => cases member
  all_goals split at member <;> simp_all [parts]

theorem changes_eq (e : Expr) : e.changes = e.isChange.toNat + changesOf e.parts := by
  rcases e with _ | _ | _ | _ | _ | _ | _ | _ | _ | _ | _ | _ | _ | ⟨_ | _, _, _⟩ <;>
    simp [changes, changesOf, isChange, parts]

theorem written_eq_zero_of_aliasText? {table : SymbolTable} {array : Expr} {text : String}
    (found : aliasText? table array = some text) : array.written table = 0 := by
  cases array with
  | ident name => rfl
  | _ => cases found

/-- The operators that change a variable are those of the expression itself and of its parts, and
once more those of what is repeated. -/
theorem written_eq (table : SymbolTable) (e : Expr) :
    e.written table = e.isChange.toNat + writtenOf table e.parts +
      writtenOf table (e.repeated table) + 2 * ((e.measured? table).map changesIn).getD 0 := by
  cases e with
  | assign op target value =>
    cases again : rereads table op target with
    | false => simp [written, isChange, parts, repeated, measured?, writtenOf, again]
    | true =>
      simp [written, isChange, parts, repeated, measured?, writtenOf, again]
      omega
  | member object field =>
    by_cases length : field = "length"
    · cases found : aliasText? table object with
      | none =>
        simp [written, isChange, parts, repeated, measured?, writtenOf, length, found]
        omega
      | some text =>
        have none := written_eq_zero_of_aliasText? found
        simp [written, isChange, parts, repeated, measured?, writtenOf, length, found, none]
    · simp [written, isChange, parts, repeated, measured?, writtenOf, length]
  | call receiver method args =>
    cases receiver with
    | none => simp [written, isChange, parts, repeated, measured?, writtenOf]
    | some receiver =>
      cases both : selects table receiver method args with
      | false => simp [written, isChange, parts, repeated, measured?, writtenOf, both]
      | true =>
        simp [written, isChange, parts, repeated, measured?, writtenOf, both]
        omega
  | _ => simp [written, isChange, parts, repeated, measured?, writtenOf]

theorem changesOf_eq_zero_iff (es : List Expr) : changesOf es = 0 ↔ ∀ e ∈ es, e.changes = 0 := by
  induction es with
  | nil => simp [changesOf]
  | cons e rest ih => rw [List.forall_mem_cons, ← ih, changesOf, Nat.add_eq_zero_iff]

theorem unchanging_iff (e : Expr) : e.Unchanging ↔ e.changes = 0 := by
  induction e using induction_parts with
  | step e ih =>
    rw [changes_eq, Nat.add_eq_zero_iff, changesOf_eq_zero_iff]
    constructor
    · intro unchanging
      refine ⟨?_, fun part direct => (ih part direct).mp (unchanging.part direct)⟩
      rw [unchanging e (.here e)]
      rfl
    · rintro ⟨own, parts⟩
      refine .of_parts ?_ fun part direct => (ih part direct).mpr (parts part direct)
      exact Bool.eq_false_iff.mpr fun change => by rw [change] at own; cases own

variable (table : SymbolTable)

theorem changesOf_le_writtenOf {es : List Expr} (each : ∀ e ∈ es, e.changes ≤ e.written table) :
    changesOf es ≤ writtenOf table es := by
  induction es with
  | nil => exact Nat.le_refl 0
  | cons e rest ih =>
    rw [List.forall_mem_cons] at each
    exact Nat.add_le_add each.1 (ih each.2)

theorem changes_le_written (e : Expr) : e.changes ≤ e.written table := by
  induction e using induction_parts with
  | step e ih =>
    have sums := changesOf_le_writtenOf table ih
    rw [changes_eq, written_eq table]
    omega

theorem writtenOf_eq_changesOf_iff (es : List Expr) :
    writtenOf table es = changesOf es ↔ ∀ e ∈ es, e.written table = e.changes := by
  induction es with
  | nil => simp [writtenOf, changesOf]
  | cons e rest ih =>
    have first := changes_le_written table e
    have later := changesOf_le_writtenOf table fun e (_ : e ∈ rest) => changes_le_written table e
    rw [List.forall_mem_cons, ← ih, writtenOf, changesOf]
    omega

theorem writtenOf_eq_zero_iff (es : List Expr) :
    writtenOf table es = 0 ↔ ∀ e ∈ es, e.written table = 0 := by
  induction es with
  | nil => simp [writtenOf]
  | cons e rest ih => rw [List.forall_mem_cons, ← ih, writtenOf, Nat.add_eq_zero_iff]

def Single (e : Expr) : Prop :=
  (∀ part ∈ e.repeated table, part.Unchanging) ∧ ∀ text ∈ e.measured? table, changesIn text = 0

theorem written_eq_changes_iff (e : Expr) :
    e.written table = e.changes ↔ ∀ inner : Expr, inner.Occurs e → inner.Single table := by
  induction e using induction_parts with
  | step e ih =>
    have each := writtenOf_eq_changesOf_iff table e.parts
    have sums := changesOf_le_writtenOf table fun part (_ : part ∈ e.parts) =>
      changes_le_written table part
    rw [changes_eq, written_eq table]
    constructor
    · intro same inner occurs
      have parts : writtenOf table e.parts = changesOf e.parts := by omega
      cases occurs with
      | here =>
        have twice : writtenOf table (e.repeated table) = 0 := by omega
        have measured : ((e.measured? table).map changesIn).getD 0 = 0 := by omega
        refine ⟨fun part member => ?_, fun text found => ?_⟩
        · have none := (writtenOf_eq_zero_iff table _).mp twice part member
          have bound := changes_le_written table part
          exact (unchanging_iff part).mpr (by omega)
        · rw [Option.mem_def] at found
          simpa [found] using measured
      | part direct inside => exact (ih _ direct).mp (each.mp parts _ direct) inner inside
    · intro single
      obtain ⟨twice, measured⟩ := single e (.here e)
      have parts := each.mpr fun part direct =>
        (ih part direct).mpr fun inner inside => single inner (.part direct inside)
      have none : writtenOf table (e.repeated table) = 0 := by
        refine (writtenOf_eq_zero_iff table _).mpr fun part member => ?_
        have direct := repeated_subset table e member
        rw [each.mp parts part direct]
        exact (unchanging_iff part).mp (twice part member)
      have text : ((e.measured? table).map changesIn).getD 0 = 0 := by
        cases found : e.measured? table with
        | none => rfl
        | some text => exact measured text found
      omega

/-- Whether the text of an expression begins with that of an operation without brackets. An update
does not put them around what it changes. -/
def opensBare : Expr → Bool
  | binary .. | unary .. | logical .. | compare .. | assign .. | ternary .. => true
  | update _ _ target => target.opensBare
  | index array _ => !array.isCompound && array.opensBare
  | call (some receiver) _ _ => !receiver.isCompound && receiver.opensBare
  | _ => false

/-- No operator can be read in the texts of an expression that come through as they are, and a sign
does not run into that of an operation that is updated. -/
def Plain : Expr → Prop
  | literal (.int body) | literal (.long body) | literal (.float body) | literal (.double body)
  | literal (.char body) | literal (.string body) => isSignless body = true
  | ident name => isSignless (table.targetName name) = true
  | unary _ operand => (!operand.isCompound && operand.opensBare) = false
  | _ => True

end Expr

end Retarget
