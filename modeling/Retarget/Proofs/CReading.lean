import Retarget.Proofs.Frame
import Retarget.Proofs.Lexis
import Retarget.Render.CExpr

/-!
# Reading C expressions back

A reader for C expressions: it cuts a text into tokens and builds a tree by the precedence and
associativity of C's operators.
-/

namespace Retarget.C

open Text
open String (ofList toList)

variable {level : Nat} {sign : String}

def signs : List String :=
  ["[", "]", "(", ")", "\x7b", "\x7d", ".", "->", "++", "--", "&", "*", "+", "-", "~", "!", "/",
    "%", "<<", ">>", "<", ">", "<=", ">=", "==", "!=", "^", "|", "&&", "||", "?", ":", "::", ";",
    "...", "=", "*=", "/=", "%=", "+=", "-=", "<<=", ">>=", "&=", "^=", "|=", ",", "#", "##",
    "<:", ":>", "<%", "%>", "%:", "%:%:", "//", "/*"]

/-- Whether a character continues a number: also a sign does after the mark of an exponent. -/
def continuesNumber (run : List Char) (c : Char) : Bool :=
  isWordChar c || c = '.' ||
    ((c = '+' || c = '-') && run.head?.any fun mark => mark ∈ ['e', 'E', 'p', 'P'])

def lexis : Lexis where
  isWordChar := isWordChar
  continuesNumber := continuesNumber
  introducers := ["L", "u", "U", "u8"].map toList
  signs := signs.map toList
  delimiter_not_word := isWordChar_of_mem_delimiters
  delimiter_not_number := fun d member run => by
    simp [continuesNumber, isWordChar_of_mem_delimiters d member, ne_of_mem_delimiters d member]
  bracket_sign := List.all_iff_forall_prop.mp (by decide)
  bracket_alone := List.all_iff_forall_prop.mp (by decide)

def keywords : List String :=
  ["auto", "break", "case", "char", "const", "continue", "default", "do", "double", "else",
    "enum", "extern", "float", "for", "goto", "if", "inline", "int", "long", "register",
    "restrict", "return", "short", "signed", "sizeof", "static", "struct", "switch", "typedef",
    "union", "unsigned", "void", "volatile", "while", "_Alignas", "_Alignof", "_Atomic", "_Bool",
    "_Complex", "_Generic", "_Imaginary", "_Noreturn", "_Static_assert", "_Thread_local"]

inductive Tree where
  | leaf (text : String)
  | unary (sign : String) (operand : Tree)
  | binary (sign : String) (left right : Tree)
  | index (array position : Tree)
  | choice (condition onTrue onFalse : Tree)
  deriving DecidableEq

/-- What was read before the operand at hand and still waits for its end. -/
inductive Frame where
  | unary (sign : String)
  | binary (sign : String) (level : Nat) (left : Tree)
  | group
  | index (array : Tree)
  /-- A condition whose first result is being read. -/
  | question (condition : Tree)
  | choice (condition onTrue : Tree)

variable {tree : Tree} {text : String} {e : Expr}

/-- How tightly a binary operator binds; all of them group from the left. -/
def level? : String → Option Nat
  | "*" | "/" | "%" => some 10
  | "+" | "-" => some 9
  | "<<" | ">>" => some 8
  | "<" | "<=" | ">" | ">=" => some 7
  | "==" | "!=" => some 6
  | "&" => some 5
  | "^" => some 4
  | "|" => some 3
  | "&&" => some 2
  | "||" => some 1
  | _ => none

def unarySigns : List String := ["-", "+", "!", "~", "*", "&"]

/-- Complete the operators that bind at least as tightly as `level`. Conditionals bind least and
group from the right, so only level zero completes them. -/
def collapse (level : Nat) : Tree → List Frame → Tree × List Frame
  | tree, .unary sign :: frames => collapse level (.unary sign tree) frames
  | tree, .binary sign own left :: frames =>
    if level ≤ own then collapse level (.binary sign left tree) frames
    else (tree, .binary sign own left :: frames)
  | tree, .choice condition onTrue :: frames =>
    if level = 0 then collapse level (.choice condition onTrue tree) frames
    else (tree, .choice condition onTrue :: frames)
  | tree, frames => (tree, frames)

inductive Parse where
  | expecting (frames : List Frame)
  | complete (tree : Tree) (frames : List Frame)

/-- The reading after a sign behind a complete operand. -/
def proceed (tree : Tree) (frames : List Frame) : String → Option Parse
  | "[" => some (.expecting (.index tree :: frames))
  | ")" =>
    match collapse 0 tree frames with
    | (inner, .group :: rest) => some (.complete inner rest)
    | _ => none
  | "]" =>
    match collapse 0 tree frames with
    | (position, .index array :: rest) => some (.complete (.index array position) rest)
    | _ => none
  | "?" =>
    let (condition, rest) := collapse 1 tree frames
    some (.expecting (.question condition :: rest))
  | ":" =>
    match collapse 0 tree frames with
    | (onTrue, .question condition :: rest) => some (.expecting (.choice condition onTrue :: rest))
    | _ => none
  | sign =>
    (level? sign).map fun level =>
      let (left, rest) := collapse level tree frames
      .expecting (.binary sign level left :: rest)

def isOperand : Token → Bool
  | .word text => ofList text ∉ keywords
  | .number _ | .literal _ => true
  | .sign _ => false

def step : Parse → Token → Option Parse
  | .expecting frames, .sign text =>
    if text = ['('] then some (.expecting (.group :: frames))
    else if ofList text ∈ unarySigns then
      some (.expecting (.unary (ofList text) :: frames))
    else none
  | .expecting frames, token =>
    if isOperand token then some (.complete (.leaf token.text) frames) else none
  | .complete tree frames, .sign text => proceed tree frames (ofList text)
  | .complete .., _ => none

def finish : Parse → Option Tree
  | .expecting _ => none
  | .complete tree frames =>
    match collapse 0 tree frames with
    | (whole, []) => some whole
    | _ => none

def read (text : String) : Option Tree := do
  let tokens ← lexis.tokens? text
  let reading ← tokens.foldlM step (.expecting [])
  finish reading

/-! ## What the reader does with operands and operators -/

def Operand (tokens : List Token) (tree : Tree) : Prop :=
  ∀ frames, tokens.foldlM step (.expecting frames) = some (.complete tree frames)

def Settled (frames : List Frame) : Prop :=
  ∀ level tree, collapse level tree frames = (tree, frames)

def Whole (tokens : List Token) (tree : Tree) : Prop :=
  ∀ frames, Settled frames → ∃ last pending,
    tokens.foldlM step (.expecting frames) = some (.complete last pending) ∧
      collapse 0 last pending = (tree, frames)

theorem proceed_binary (binds : level? sign = some level) (tree : Tree) (frames : List Frame) :
    proceed tree frames sign =
      some (.expecting (.binary sign level (collapse level tree frames).1 ::
        (collapse level tree frames).2)) := by
  unfold level? at binds
  split at binds <;> cases binds <;> rfl

theorem Operand.leaf {token : Token} (operand : isOperand token = true) :
    Operand [token] (.leaf token.text) := by
  intro frames
  cases token with
  | sign text => cases operand
  | word text | number text | literal text => simp [step, operand]

theorem Operand.whole {tokens : List Token} (operand : Operand tokens tree) :
    Whole tokens tree := by
  intro frames settled
  exact ⟨tree, frames, operand frames, settled 0 tree⟩

namespace Whole

variable {tokens first second third : List Token} {tree left right condition onTrue onFalse : Tree}

theorem bracketed (whole : Whole tokens tree) :
    Operand (.sign ['('] :: (tokens ++ [.sign [')']])) tree := by
  intro frames
  obtain ⟨last, pending, reads, collapses⟩ := whole (.group :: frames) fun _ _ => rfl
  have opens : step (.expecting frames) (.sign ['(']) = some (.expecting (.group :: frames)) := rfl
  have closes : step (.complete last pending) (.sign [')']) = some (.complete tree frames) := by
    change proceed last pending ")" = _
    simp only [proceed, collapses]
  simp [List.foldlM_cons, List.foldlM_append, opens, reads, closes]

theorem subscript (array : Operand first left) (position : Whole second right) :
    Operand (first ++ .sign ['['] :: (second ++ [.sign [']']])) (.index left right) := by
  intro frames
  obtain ⟨last, pending, reads, collapses⟩ := position (.index left :: frames) fun _ _ => rfl
  have opens : step (.complete left frames) (.sign ['[']) =
      some (.expecting (.index left :: frames)) := rfl
  have closes : step (.complete last pending) (.sign [']']) =
      some (.complete (.index left right) frames) := by
    change proceed last pending "]" = _
    simp only [proceed, collapses]
  simp [List.foldlM_cons, List.foldlM_append, array frames, opens, reads, closes]

theorem unary (sign : List Char) (member : ofList sign ∈ unarySigns)
    (operand : Operand tokens tree) :
    Whole (.sign sign :: tokens) (.unary (ofList sign) tree) := by
  intro frames settled
  refine ⟨tree, .unary (ofList sign) :: frames, ?_, ?_⟩
  · have differs : sign ≠ ['('] := by
      rintro rfl
      revert member
      decide
    simp [List.foldlM_cons, step, differs, member, operand (.unary (ofList sign) :: frames)]
  · exact settled 0 _

theorem binary (sign : List Char) (binds : level? (ofList sign) = some level)
    (before : Operand first left) (behind : Operand second right) :
    Whole (first ++ .sign sign :: second) (.binary (ofList sign) left right) := by
  intro frames settled
  refine ⟨right, .binary (ofList sign) level left :: frames, ?_, ?_⟩
  · have proceeds : step (.complete left frames) (.sign sign) =
        some (.expecting (.binary (ofList sign) level left :: frames)) := by
      change proceed left frames (ofList sign) = _
      rw [proceed_binary binds, settled level left]
    simp [List.foldlM_append, List.foldlM_cons, before frames, proceeds, behind (_ :: frames)]
  · exact settled 0 _

theorem choice (test : Operand first condition) (affirmed : Operand second onTrue)
    (denied : Operand third onFalse) :
    Whole (first ++ .sign ['?'] :: (second ++ .sign [':'] :: third))
      (.choice condition onTrue onFalse) := by
  intro frames settled
  refine ⟨onFalse, .choice condition onTrue :: frames, ?_, ?_⟩
  · have asks : step (.complete condition frames) (.sign ['?']) =
        some (.expecting (.question condition :: frames)) := by
      change proceed condition frames "?" = _
      simp only [proceed, settled 1 condition]
    have turns : step (.complete onTrue (.question condition :: frames)) (.sign [':']) =
        some (.expecting (.choice condition onTrue :: frames)) := rfl
    simp [List.foldlM_append, List.foldlM_cons, test frames, asks,
      affirmed (.question condition :: frames), turns, denied (.choice condition onTrue :: frames)]
  · exact settled 0 _

end Whole

/-! ## Texts and their trees -/

def lengthening : List Char := ['-', '+', '=', '>']

def Written (text : String) (tree : Tree) : Prop :=
  ∃ tokens, lexis.Spells text.toList tokens ∧ Whole tokens tree

def WrittenOperand (text : String) (tree : Tree) : Prop :=
  ∃ tokens c rest, text.toList = c :: rest ∧ c ∉ lengthening ∧
    lexis.Spells text.toList tokens ∧ Operand tokens tree

theorem Written.read (written : Written text tree) : C.read text = some tree := by
  obtain ⟨tokens, spells, whole⟩ := written
  obtain ⟨last, pending, reads, collapses⟩ := whole [] fun _ _ => rfl
  have cut := Lexis.tokens?_of_spells spells
  simp [C.read, cut, reads, finish, collapses]

theorem Written.bracketed (written : Written text tree) : WrittenOperand (bracketed text) tree := by
  obtain ⟨tokens, spells, whole⟩ := written
  have opened : (Text.bracketed text).toList = '(' :: (text.toList ++ [')']) := by
    simp [Text.bracketed]
  exact ⟨_, _, _, opened, by decide, opened ▸ spells.bracketed, whole.bracketed⟩

theorem opensSign_unary (op : UnaryOp) {c : Char} (ends : c ∉ lengthening) :
    lexis.opensSign (c :: op.symbol.toList.reverse) = false := by
  have longer : ∀ sign ∈ lexis.signs, sign.take 1 = op.symbol.toList →
      sign.tail.head?.all (· ∈ lengthening) = true := by
    cases op <;> decide
  refine List.any_eq_false.mpr fun sign member opens => ends ?_
  obtain ⟨rest, rfl⟩ := List.isPrefixOf_iff_prefix.mp opens
  cases op <;> exact of_decide_eq_true (longer _ member rfl)

theorem scan_unary (op : UnaryOp) :
    lexis.scan .between op.symbol.toList = some ([], .sign op.symbol.toList.reverse) ∧
      op.symbol.toList ∈ lexis.signs ∧ op.symbol.toList ≠ ['.'] ∧ op.symbol ∈ unarySigns := by
  cases op <;> decide

theorem scan_of_level? (binds : level? sign = some level) :
    lexis.scan .between (sign.toList ++ [' ']) = some ([.sign sign.toList], .between) := by
  unfold level? at binds
  split at binds <;> cases binds <;> decide

namespace WrittenOperand

variable {text left right other : String} {tree first second third : Tree}

theorem written (operand : WrittenOperand text tree) : Written text tree := by
  obtain ⟨tokens, _, _, _, _, spells, reads⟩ := operand
  exact ⟨tokens, spells, reads.whole⟩

theorem leaf {token : Token} (cut : lexis.operand? text = some token)
    (operand : isOperand token = true) : WrittenOperand text (.leaf text) := by
  obtain ⟨spells, -, same⟩ := Lexis.spells_of_operand? cut
  have signs : ∀ c ∈ lengthening, lexis.start? c = some (.sign [c]) ∧ c ≠ '.' :=
    List.all_iff_forall_prop.mp (by decide)
  obtain ⟨c, rest, start, begins⟩ := Lexis.exists_head_of_operand? cut signs
  exact ⟨[token], c, rest, start, begins, spells, same ▸ Operand.leaf operand⟩

theorem subscript (array : WrittenOperand left first) (position : Written right second) :
    WrittenOperand (left ++ "[" ++ right ++ "]") (.index first second) := by
  obtain ⟨tokens, c, rest, start, begins, spells, reads⟩ := array
  obtain ⟨inner, innerSpells, whole⟩ := position
  have joined : (left ++ "[" ++ right ++ "]").toList =
      left.toList ++ '[' :: (right.toList ++ [']']) := by simp
  refine ⟨_, c, rest ++ '[' :: (right.toList ++ [']']), ?_, begins,
    joined ▸ spells.subscript innerSpells, Whole.subscript reads whole⟩
  rw [joined, start]
  rfl

theorem unary (op : UnaryOp) (operand : WrittenOperand text tree) :
    Written (op.symbol ++ text) (.unary op.symbol tree) := by
  obtain ⟨tokens, c, rest, start, begins, spells, reads⟩ := operand
  obtain ⟨scans, member, noPoint, isUnary⟩ := scan_unary op
  have whole := Whole.unary op.symbol.toList (by simpa using isUnary) reads
  rw [String.ofList_toList] at whole
  refine ⟨_, ?_, whole⟩
  rw [String.toList_append, start]
  rw [start] at spells
  exact spells.signed _ scans member noPoint (opensSign_unary op begins)

theorem binary (binds : level? sign = some level) (before : WrittenOperand left first)
    (behind : WrittenOperand right second) :
    Written (left ++ " " ++ sign ++ " " ++ right) (.binary sign first second) := by
  obtain ⟨tokens, _, _, _, _, spells, reads⟩ := before
  obtain ⟨others, _, _, _, _, otherSpells, otherReads⟩ := behind
  have joined : (left ++ " " ++ sign ++ " " ++ right).toList =
      left.toList ++ ' ' :: (sign.toList ++ ' ' :: right.toList) := by simp
  have whole := Whole.binary sign.toList (by simpa using binds) reads otherReads
  rw [String.ofList_toList] at whole
  refine ⟨_, ?_, whole⟩
  rw [joined]
  exact spells.spaced (scan_of_level? binds) otherSpells

theorem choice (test : WrittenOperand text first) (affirmed : WrittenOperand left second)
    (denied : WrittenOperand right third) :
    Written (text ++ " ? " ++ left ++ " : " ++ right) (.choice first second third) := by
  obtain ⟨tokens, _, _, _, _, spells, reads⟩ := test
  obtain ⟨yes, _, _, _, _, yesSpells, yesReads⟩ := affirmed
  obtain ⟨no, _, _, _, _, noSpells, noReads⟩ := denied
  have joined : (text ++ " ? " ++ left ++ " : " ++ right).toList =
      text.toList ++ ' ' :: (['?'] ++ ' ' ::
        (left.toList ++ ' ' :: ([':'] ++ ' ' :: right.toList))) := by simp
  have asks : lexis.scan .between (['?'] ++ [' ']) = some ([.sign ['?']], .between) := by decide
  have turns : lexis.scan .between ([':'] ++ [' ']) = some ([.sign [':']], .between) := by decide
  refine ⟨_, ?_, .choice reads yesReads noReads⟩
  rw [joined]
  exact spells.spaced asks (yesSpells.spaced turns noSpells)

end WrittenOperand

/-! ## Expressions -/

theorem symbols_injective :
    (∀ a b : UnaryOp, a.symbol = b.symbol → a = b) ∧
      (∀ a b : BinaryOp, a.symbol = b.symbol → a = b) ∧
      (∀ a b : LogicalOp, a.symbol = b.symbol → a = b) ∧
      (∀ a b : CompareOp, a.symbol = b.symbol → a = b) ∧
      ∀ (a : BinaryOp) (b : LogicalOp) (c : CompareOp),
        a.symbol ≠ b.symbol ∧ a.symbol ≠ c.symbol ∧ b.symbol ≠ c.symbol := by
  refine ⟨?_, ?_, ?_, ?_, fun a b c => by cases a <;> cases b <;> cases c <;> decide⟩
  all_goals intro a b; cases a <;> cases b <;> decide

def rendered (cx : Context) (e : Expr) : String :=
  match (expr e).run.run cx with
  | .ok (.ok text, _) => text
  | _ => ""

/-- The operators of an expression, under the signs that C has for them, over the texts of its other
parts. Different operators have different signs (`symbols_injective`). -/
def operatorTree (cx : Context) : Expr → Tree
  | .binary op left right => .binary op.symbol (operatorTree cx left) (operatorTree cx right)
  | .unary op operand => .unary op.symbol (operatorTree cx operand)
  | .logical op left right => .binary op.symbol (operatorTree cx left) (operatorTree cx right)
  | .compare op left right => .binary op.symbol (operatorTree cx left) (operatorTree cx right)
  | .index array position => .index (operatorTree cx array) (operatorTree cx position)
  | .ternary condition onTrue onFalse =>
    .choice (operatorTree cx condition) (operatorTree cx onTrue) (operatorTree cx onFalse)
  | e => .leaf (rendered cx e)

def isSingle (text : String) : Bool :=
  (lexis.operand? text).any isOperand

/-- Whether an expression is built by operators that C has too, from literals and identifiers each
of which is rendered as a single token. -/
def isPlain (cx : Context) : Expr → Bool
  | .literal value => isSingle (rendered cx (.literal value))
  | .ident name => isSingle (rendered cx (.ident name))
  | .binary op left right =>
    op ≠ .shiftRightUnsigned &&
      !(op = .mod && (cx.symbols.typeOf (.binary op left right)).isFloating) &&
      !cx.symbols.isConcatenation (.binary op left right) && isPlain cx left && isPlain cx right
  | .unary _ operand => isPlain cx operand
  | .logical _ left right => isPlain cx left && isPlain cx right
  | .compare op left right =>
    !(cx.symbols.typeOf left = .string && cx.symbols.typeOf right = .string &&
      (op = .eq || op = .ne)) && isPlain cx left && isPlain cx right
  | .index array position => isPlain cx array && isPlain cx position
  | .ternary condition onTrue onFalse =>
    isPlain cx condition && isPlain cx onTrue && isPlain cx onFalse
  | _ => false

def Stands (e : Expr) (tree : Tree) (text : String) : Prop :=
  Written text tree ∧ WrittenOperand (delimit e text) tree

theorem Stands.compound (compound : e.isCompound = true)
    (written : Written text tree) : Stands e tree text := by
  refine ⟨written, ?_⟩
  have brackets : delimit e text = bracketed text := by simp [delimit, compound]
  rw [brackets]
  exact written.bracketed

theorem Stands.simple
    (simple : (e.isCompound || e.lengthOf?.isSome) = false) (operand : WrittenOperand text tree) :
    Stands e tree text := by
  refine ⟨operand.written, ?_⟩
  have bare : delimit e text = text := by simp [delimit, simple]
  rw [bare]
  exact operand

theorem writtenOperand_of_isSingle (single : isSingle text = true) :
    WrittenOperand text (.leaf text) := by
  unfold isSingle at single
  cases cut : lexis.operand? text with
  | none =>
    rw [cut] at single
    cases single
  | some token =>
    rw [cut] at single
    exact .leaf cut single

theorem level?_binary {op : BinaryOp} (plain : op ≠ .shiftRightUnsigned) :
    ∃ level, level? op.symbol = some level := by
  cases op <;> first | exact (plain rfl).elim | exact ⟨_, rfl⟩

theorem level?_logical (op : LogicalOp) : ∃ level, level? op.symbol = some level := by
  cases op <;> exact ⟨_, rfl⟩

theorem level?_compare (op : CompareOp) : ∃ level, level? op.symbol = some level := by
  cases op <;> exact ⟨_, rfl⟩

theorem literal_gives (cx : Context) (value : Literal) :
    Attempt.Gives cx.symbols (expr (.literal value)) (· = rendered cx (.literal value)) := by
  intro other same
  cases value with
  | bool value => exact ⟨_, _, rfl, same, rfl⟩
  | int _ | long _ | float _ | double _ | char _ | string _ | null =>
    exact ⟨_, _, rfl, same, rfl⟩

theorem ident_gives (cx : Context) (name : String) :
    Attempt.Gives cx.symbols (expr (.ident name)) (· = rendered cx (.ident name)) := by
  intro other same
  refine ⟨_, _, rfl, same, ?_⟩
  change other.symbols.targetName name = cx.symbols.targetName name
  rw [same]

theorem expr_gives (cx : Context) : (e : Expr) → isPlain cx e = true →
    Attempt.Gives cx.symbols (expr e) (Stands e (operatorTree cx e))
  | .literal value, plain => by
    refine (literal_gives cx value).mono ?_
    rintro _ rfl
    exact .simple rfl (writtenOperand_of_isSingle plain)
  | .ident name, plain => by
    refine (ident_gives cx name).mono ?_
    rintro _ rfl
    exact .simple rfl (writtenOperand_of_isSingle plain)
  | .binary op left right, plain => by
    simp only [isPlain, Bool.and_eq_true, decide_eq_true_eq, Bool.not_eq_true'] at plain
    obtain ⟨⟨⟨⟨signed, exact⟩, sum⟩, leftPlain⟩, rightPlain⟩ := plain
    obtain ⟨level, binds⟩ := level?_binary signed
    refine .symbols ?_
    rw [if_neg (by simp [sum])]
    refine (expr_gives cx left leftPlain).bind fun l ⟨_, before⟩ => ?_
    refine (expr_gives cx right rightPlain).bind fun r ⟨_, behind⟩ => ?_
    split
    · exact (signed rfl).elim
    · rw [exact]
      exact .pure (.compound rfl (before.binary binds behind))
  | .unary op operand, plain => by
    refine (expr_gives cx operand plain).bind fun text ⟨_, single⟩ => ?_
    exact .pure (.compound rfl (single.unary op))
  | .logical op left right, plain => by
    obtain ⟨leftPlain, rightPlain⟩ := Bool.and_eq_true_iff.mp plain
    obtain ⟨level, binds⟩ := level?_logical op
    refine (expr_gives cx left leftPlain).bind fun l ⟨_, before⟩ => ?_
    refine (expr_gives cx right rightPlain).bind fun r ⟨_, behind⟩ => ?_
    exact .pure (.compound rfl (before.binary binds behind))
  | .compare op left right, plain => by
    simp only [isPlain, Bool.and_eq_true, Bool.not_eq_true'] at plain
    obtain ⟨⟨byValue, leftPlain⟩, rightPlain⟩ := plain
    obtain ⟨level, binds⟩ := level?_compare op
    refine .symbols ?_
    rw [byValue]
    refine (expr_gives cx left leftPlain).bind fun l ⟨_, before⟩ => ?_
    refine (expr_gives cx right rightPlain).bind fun r ⟨_, behind⟩ => ?_
    exact .pure (.compound rfl (before.binary binds behind))
  | .index array position, plain => by
    obtain ⟨arrayPlain, positionPlain⟩ := Bool.and_eq_true_iff.mp plain
    refine (expr_gives cx array arrayPlain).bind fun a ⟨_, before⟩ => ?_
    refine (expr_gives cx position positionPlain).bind fun i ⟨within, _⟩ => ?_
    exact .pure (.simple rfl (before.subscript within))
  | .ternary condition onTrue onFalse, plain => by
    simp only [isPlain, Bool.and_eq_true] at plain
    obtain ⟨⟨conditionPlain, truePlain⟩, falsePlain⟩ := plain
    refine (expr_gives cx condition conditionPlain).bind fun c ⟨_, test⟩ => ?_
    refine (expr_gives cx onTrue truePlain).bind fun a ⟨_, affirmed⟩ => ?_
    refine (expr_gives cx onFalse falsePlain).bind fun b ⟨_, denied⟩ => ?_
    exact .pure (.compound rfl (test.choice affirmed denied))

theorem run_of_isPlain {cx : Context} (plain : isPlain cx e = true) :
    ∃ after, (expr e).run.run cx = .ok (.ok (rendered cx e), after) ∧
      read (rendered cx e) = some (operatorTree cx e) := by
  obtain ⟨text, after, ends, _, written, _⟩ := expr_gives cx e plain cx rfl
  have same : rendered cx e = text := by simp only [rendered, ends]
  rw [same]
  exact ⟨after, ends, written.read⟩

/-- A plain expression has a rendering, which reads back as its operators over the texts of its
leaves. Plain expressions with different operators or leaves, also from different contexts, are
never rendered alike. -/
theorem read_rendered {cx : Context} {e : Expr} (plain : isPlain cx e = true) :
    ∃ text after, (expr e).run.run cx = .ok (.ok text, after) ∧
      read text = some (operatorTree cx e) ∧
      ∀ (cx' : Context) (other : Expr), isPlain cx' other = true →
        operatorTree cx' other ≠ operatorTree cx e →
        ∀ after', (expr other).run.run cx' ≠ .ok (.ok text, after') := by
  obtain ⟨after, ends, reads⟩ := run_of_isPlain plain
  refine ⟨rendered cx e, after, ends, reads, ?_⟩
  intro cx' other otherPlain different after' otherEnds
  obtain ⟨_, otherRun, otherReads⟩ := run_of_isPlain otherPlain
  have same : rendered cx' other = rendered cx e := by
    rw [otherRun] at otherEnds
    simp only [Except.ok.injEq, Prod.mk.injEq] at otherEnds
    exact otherEnds.1
  rw [same, reads] at otherReads
  exact different (Option.some.inj otherReads).symm

/-- A choice between a negated product and an element at a shifted position. -/
theorem read_rendered_choice :
    let cx : Context := { target := .c, symbols := { inner := [.scalar "a" .int] } }
    let e : Expr := .ternary (.compare .lt (.ident "a") (.unary .neg (.literal (.int "1"))))
      (.unary .neg (.binary .mul (.ident "a") (.literal (.double "2.5"))))
      (.index (.index (.ident "xs") (.binary .shiftLeft (.ident "a") (.literal (.int "1"))))
        (.unary .bitNot (.ident "a")))
    isPlain cx e = true ∧ rendered cx e = "(a < (-1)) ? (-(a * 2.5)) : xs[a << 1][~a]" ∧
      ∃ text after, (expr e).run.run cx = .ok (.ok text, after) ∧
        read text = some (operatorTree cx e) ∧
        ∀ (cx' : Context) (other : Expr), isPlain cx' other = true →
          operatorTree cx' other ≠ operatorTree cx e →
          ∀ after', (expr other).run.run cx' ≠ .ok (.ok text, after') := by
  refine ⟨by decide +kernel, by decide +kernel, read_rendered (by decide +kernel)⟩

end Retarget.C
