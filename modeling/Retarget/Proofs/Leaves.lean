import Retarget.Proofs.Layout

/-!
# The leaves of a program

The texts of a program that can come through to the output: identifiers, the digits of numerals, the
bodies of characters and strings, comments, and the texts of unsupported statements.
-/

namespace Retarget

variable {e : Expr} {name : String}

/-- A text of a program that can come through to the output. -/
inductive Leaf where
  | name (name : String)
  | numeral (digits : String)
  | letter (body : String)
  | text (body : String)
  | remark (comment : Comment)
  | source (kind text : String)
  | measured (array : String)
  deriving DecidableEq

def Literal.leaves : Literal → List Leaf
  | int digits | long digits | float digits | double digits => [.numeral digits]
  | char body => [.letter body]
  | string body => [.text body]
  | bool _ | null => []

namespace Expr

mutual

/-- The leaves of an expression. Names of fields and methods never come through. -/
def leaves : Expr → List Leaf
  | literal value => value.leaves
  | ident name => [.name name]
  | binary _ left right => left.leaves ++ right.leaves
  | unary _ operand => operand.leaves
  | logical _ left right => left.leaves ++ right.leaves
  | compare _ left right => left.leaves ++ right.leaves
  | assign _ target value => target.leaves ++ value.leaves
  | update _ _ target => target.leaves
  | index array position => array.leaves ++ position.leaves
  | member object _ => object.leaves
  | arrayLiteral items => leavesOf items
  | ternary condition onTrue onFalse => condition.leaves ++ (onTrue.leaves ++ onFalse.leaves)
  | cast _ operand => operand.leaves
  | call none _ args => leavesOf args
  | call (some receiver) _ args => receiver.leaves ++ leavesOf args

def leavesOf : List Expr → List Leaf
  | [] => []
  | e :: rest => e.leaves ++ leavesOf rest

end

def Over (admits : Leaf → Prop) (e : Expr) : Prop :=
  ∀ leaf ∈ e.leaves, admits leaf

variable {admits : Leaf → Prop}

theorem over_of_mem {es : List Expr} (clean : ∀ leaf ∈ leavesOf es, admits leaf) (member : e ∈ es) :
    e.Over admits := by
  induction es with
  | nil => cases member
  | cons first rest ih =>
    obtain ⟨here, later⟩ := List.forall_mem_append.mp clean
    rcases List.mem_cons.mp member with rfl | member
    · exact here
    · exact ih later member

theorem over_concatParts (table : SymbolTable) (clean : e.Over admits) :
    ∀ part ∈ table.concatParts e, part.Over admits :=
  table.forall_concatParts clean fun _ _ sum => List.forall_mem_append.mp sum

theorem admits_of_stringBody? {body : String} (clean : e.Over admits)
    (found : e.stringBody? = some body) : admits (.text body) := by
  cases e with
  | literal value =>
    cases value with
    | string text =>
      cases found
      exact clean _ List.mem_cons_self
    | _ => cases found
  | _ => cases found

end Expr

def ArrayInit.leaves : ArrayInit → List Leaf
  | .absent => []
  | .literal items => Expr.leavesOf items
  | .clone source => source.leaves
  | .allocate extents => Expr.leavesOf extents
  | .alias source => source.leaves

def SwitchLabel.leaves : SwitchLabel → List Leaf
  | value e => e.leaves
  | default => []

namespace Stmt

mutual

/-- The leaves of a statement. The value of a return never comes through. -/
def leaves : Stmt → List Leaf
  | declare name _ none => [.name name]
  | declare name _ (some init) => .name name :: init.leaves
  | declareArray name _ _ init => .name name :: init.leaves
  | expr e => e.leaves
  | print p => Expr.leavesOf p.args
  | conditional condition body elifs none =>
    condition.leaves ++ (leavesOf body ++ leavesOfBranches elifs)
  | conditional condition body elifs (some otherwise) =>
    condition.leaves ++ (leavesOf body ++ (leavesOfBranches elifs ++ leavesOf otherwise))
  | switch discriminant cases => discriminant.leaves ++ leavesOfCases cases
  | forLoop none none update body => Expr.leavesOf update ++ leavesOf body
  | forLoop none (some condition) update body =>
    condition.leaves ++ (Expr.leavesOf update ++ leavesOf body)
  | forLoop (some init) none update body =>
    init.leaves ++ (Expr.leavesOf update ++ leavesOf body)
  | forLoop (some init) (some condition) update body =>
    init.leaves ++ (condition.leaves ++ (Expr.leavesOf update ++ leavesOf body))
  | whileLoop condition body => condition.leaves ++ leavesOf body
  | doWhile condition body => condition.leaves ++ leavesOf body
  | forEach _ name iterable body => .name name :: (iterable.leaves ++ leavesOf body)
  | breakStmt | continueStmt | returnStmt _ => []
  | comment remark => [.remark remark]
  | block body => leavesOf body
  | sequence parts => leavesOf parts
  | unsupported kind text => [.source kind text]

def leavesOf : List Stmt → List Leaf
  | [] => []
  | s :: rest => s.leaves ++ leavesOf rest

def leavesOfBranches : List Branch → List Leaf
  | [] => []
  | .mk condition body :: rest => condition.leaves ++ (leavesOf body ++ leavesOfBranches rest)

def leavesOfCases : List Case → List Leaf
  | [] => []
  | .mk labels body :: rest =>
    labels.flatMap SwitchLabel.leaves ++ (leavesOf body ++ leavesOfCases rest)

end

def Over (admits : Leaf → Prop) (stmt : Stmt) : Prop :=
  ∀ leaf ∈ stmt.leaves, admits leaf

instance decidableOver (admits : Leaf → Prop) [DecidablePred admits] (stmt : Stmt) :
    Decidable (stmt.Over admits) :=
  inferInstanceAs (Decidable (∀ leaf ∈ stmt.leaves, admits leaf))

variable {admits : Leaf → Prop}

theorem over_of_mem {block : List Stmt} (clean : ∀ leaf ∈ leavesOf block, admits leaf) {s : Stmt}
    (member : s ∈ block) : s.Over admits := by
  induction block with
  | nil => cases member
  | cons first rest ih =>
    obtain ⟨here, later⟩ := List.forall_mem_append.mp clean
    rcases List.mem_cons.mp member with rfl | member
    · exact here
    · exact ih later member

theorem over_declare {type : ValueType} {init : Option Expr}
    (clean : (declare name type init).Over admits) :
    admits (.name name) ∧ ∀ value ∈ init, value.Over admits := by
  cases init with
  | none => exact ⟨clean _ List.mem_cons_self, by simp⟩
  | some value =>
    refine ⟨clean _ List.mem_cons_self, fun other same => ?_⟩
    cases same
    exact fun leaf member => clean leaf (List.mem_cons_of_mem _ member)

theorem over_forLoop {init : Option Stmt} {condition : Option Expr} {update : List Expr}
    {body : List Stmt} (clean : (forLoop init condition update body).Over admits) :
    (∀ s ∈ init, s.Over admits) ∧ (∀ e ∈ condition, e.Over admits) ∧
      (∀ leaf ∈ Expr.leavesOf update, admits leaf) ∧ ∀ leaf ∈ leavesOf body, admits leaf := by
  have all : ∀ leaf, (∃ s ∈ init, leaf ∈ s.leaves) ∨ (∃ e ∈ condition, leaf ∈ e.leaves) ∨
      leaf ∈ Expr.leavesOf update ∨ leaf ∈ leavesOf body → admits leaf := by
    intro leaf place
    apply clean
    cases init <;> cases condition <;> simpa [leaves] using place
  refine ⟨fun s same leaf member => all leaf (.inl ⟨s, same, member⟩), fun e same leaf member =>
    all leaf (.inr (.inl ⟨e, same, member⟩)), fun leaf member => all leaf ?_,
    fun leaf member => all leaf ?_⟩
  · exact .inr (.inr (.inl member))
  · exact .inr (.inr (.inr member))

end Stmt

theorem SwitchLabel.over_exprs {admits : Leaf → Prop} {labels : List SwitchLabel}
    (clean : ∀ leaf ∈ labels.flatMap leaves, admits leaf) :
    ∀ e ∈ labels.filterMap expr?, e.Over admits := by
  intro e member leaf inside
  obtain ⟨label, present, found⟩ := List.mem_filterMap.mp member
  cases label with
  | value other =>
    cases found
    exact clean leaf (List.mem_flatMap.mpr ⟨_, present, inside⟩)
  | default => cases found

namespace Degraded

def wordsIn (value : String) : List String :=
  (tokens (Text.trimChars value.toList)).filterMap fun
    | .word name => some (String.ofList name)
    | .number .. | .other _ => none

namespace Shape

/-- The names in a recognised statement under which variables may be known. -/
def names : Shape → List String
  | declaration _ name none => [name]
  | declaration _ name (some value) => name :: wordsIn value
  | assignment name _ value => name :: wordsIn value
  | print .. => []

def values : Shape → List String
  | declaration _ _ value => value.toList
  | assignment _ _ value => [value]
  | print .. => []

theorem mem_names {shape : Shape} {value : String} (known : value ∈ shape.values)
    (member : name ∈ wordsIn value) : name ∈ shape.names := by
  cases shape with
  | declaration type declared init =>
    cases Option.mem_toList.mp known
    exact List.mem_cons_of_mem _ member
  | assignment target op written =>
    cases List.mem_singleton.mp known
    exact List.mem_cons_of_mem _ member
  | print body newline => cases known

end Shape

end Degraded

/-- A condition on leaves that admits every name the output may have for an admitted one, the names
of the indices that are put in, and the names in bare texts. -/
structure Diction where
  admits : Leaf → Prop
  substitute : ∀ {name : String}, admits (.name name) → ∀ n,
    admits (.name (Naming.substitute name n))
  index : ∀ table : SymbolTable, admits (.name (table.freshName "i"))
  bare : ∀ {kind text name : String} {shape : Degraded.Shape}, admits (.source kind text) →
    Degraded.shape? text = some shape → name ∈ shape.names → admits (.name name)

theorem Diction.admits_of_standsFor (diction : Diction) {chosen : String}
    (stands : Naming.StandsFor name chosen) (fine : diction.admits (.name name)) :
    diction.admits (.name chosen) := by
  rcases stands with rfl | ⟨n, rfl⟩
  · exact fine
  · exact diction.substitute fine n

def Diction.any : Diction where
  admits _ := True
  substitute _ _ := True.intro
  index _ := True.intro
  bare _ _ _ := True.intro

def Diction.under (condition : Prop) (diction : Diction) : Diction where
  admits leaf := condition → diction.admits leaf
  substitute fine n holds := diction.substitute (fine holds) n
  index table _ := diction.index table
  bare fine shaped member holds := diction.bare (fine holds) shaped member

def Diction.both (first second : Diction) : Diction where
  admits leaf := first.admits leaf ∧ second.admits leaf
  substitute fine n := ⟨first.substitute fine.1 n, second.substitute fine.2 n⟩
  index table := ⟨first.index table, second.index table⟩
  bare fine shaped member := ⟨first.bare fine.1 shaped member, second.bare fine.2 shaped member⟩

end Retarget
