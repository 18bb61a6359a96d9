import Retarget.Proofs.CSpelling

/-!
# C expressions are spelled out

Every text that the C renderer makes of an expression is spelled from the leaves of the expression
and of the symbols in scope, in any layout.
-/

namespace Retarget

open List (forall_mem_append mem_cons_self)
open Render.Writes (require warn)

variable {texts : List String}

/-- Every symbol is written under an admitted name, and an alias measures an array that is spelled
out. -/
def Diction.cRule (diction : Diction) : SymbolRule where
  Fits caps symbol := diction.admits (.name symbol.targetName) ∧
    ∀ measured ∈ symbol.aliasOf, C.Spelled diction.admits caps measured

namespace C

open Text Attempt

variable {manner : Manner} {level : Nat} {caps : Caps}

/-- An attempt at a text comes to a spelled one that no closing brace comes first in. -/
def Spells (manner : Manner) (level : Nat) (caps : Caps) (attempt : Attempt String) :
    Prop :=
  attempt.Says manner.cRule level caps (Tidy manner caps)

theorem Spells.pure {text : String} (worded : Tidy manner caps text) :
    Spells manner level caps (pure text) :=
  Says.pure worded

theorem targetName_worded {table : SymbolTable} (admits : manner.cRule.Admits caps table)
    {name : String} (fine : manner.admits (.name name)) :
    Tidy manner caps (table.targetName name) := by
  unfold SymbolTable.targetName
  split
  next symbol found => exact .name (admits.lookup found).1
  next => exact .name fine

section Parts

theorem typeName_said (type : ValueType) :
    (typeName type).Says manner.cRule level caps (NamesType caps type) := by
  cases type with
  | boolean =>
    apply (Writes.lift (require .bool)).bind
    intro _ used
    exact Says.pure (.inr ⟨rfl, rfl, used⟩)
  | unknown => exact .refuse _
  | _ => exact .pure (.inl (by decide))

theorem literalText_said {value : Literal} (clean : ∀ leaf ∈ value.leaves, manner.admits leaf) :
    (literalText value).Says manner.cRule level caps (Tidy manner caps) := by
  cases value with
  | int digits => exact Render.Says.done (.integer (clean _ mem_cons_self))
  | long digits => exact Render.Says.done (.long (clean _ mem_cons_self))
  | float digits => exact Render.Says.done (.float (clean _ mem_cons_self))
  | double digits => exact Render.Says.done (.decimal (clean _ mem_cons_self))
  | bool value =>
    apply (require .bool).bind
    intro _ used
    refine Render.Says.done ?_
    cases value with
    | true => exact .libraryText (by decide) used
    | false => exact .libraryText (by decide) used
  | char body => exact Render.Says.done (.letter (clean _ mem_cons_self))
  | string body => exact Render.Says.done (.quote (.text (clean _ mem_cons_self)))
  | null => exact Render.Says.done (.own (by decide))

theorem constant?_known {owner : Option String} {field text : String} {capability : Capability}
    (found : constant? owner field = some (capability, text)) :
    (text, capability) ∈ libraryTexts := by
  unfold constant? at found
  split at found
  all_goals
    cases found
    try decide

theorem memberText_spells (owner : Option String) (field : String) :
    Spells manner level caps (memberText owner field) := by
  unfold memberText
  split
  next capability text found =>
    apply (Writes.lift (require capability)).bind
    intro _ used
    exact Spells.pure (.libraryText (constant?_known found) used)
  next => exact .refuse _

theorem checkMeasured_writes (symbol : Symbol) :
    Writes manner.cRule level caps (fun _ => checkMeasured symbol) fun _ => True := by
  have refuses (reason : String) : Writes manner.cRule level caps
      (fun _ => (Attempt.invalid "length" reason : Attempt Unit)) fun _ => False :=
    Writes.refuse _
  apply Writes.ite
  · intro _
    apply (refuses _).bind
    intro _ impossible
    cases impossible
  · intro _
    apply Writes.ite
    · intro _
      exact .lift (warn _)
    · intro _
      exact .pure True.intro

theorem arrayLength_spells (array : Expr) {operand : Attempt String}
    (spells : Spells manner level caps operand) :
    Spells manner level caps (arrayLength array operand) := by
  apply Says.symbols.bind
  intro table admits
  cases found : array.ident?.bind table.lookup with
  | none =>
    apply spells.bind
    intro text worded
    exact Spells.pure (.sizeQuotient worded.spelled)
  | some symbol =>
    have finished (text : String)
        (spelled : Spelled manner.admits caps text) : Spells manner level caps (do
          checkMeasured symbol
          return sizeQuotient text) := by
      apply (checkMeasured_writes symbol).bind
      intro _ _
      exact Spells.pure (.sizeQuotient spelled)
    obtain ⟨name, -, inScope⟩ := Option.bind_eq_some_iff.mp found
    dsimp only [Option.bind_some]
    split
    next measured isAlias =>
      exact finished measured ((admits.lookup inScope).2 measured isAlias)
    next =>
      apply spells.bind
      intro text worded
      exact finished text worded.spelled

theorem unsigned_known (type : ValueType) : Known leads ("(" ++ unsignedName type ++ ") ") ∧
      Known joints (" = (" ++ unsignedName type ++ ") ") := by
  unfold unsignedName
  split <;> decide

theorem assignmentText_said (op : AssignOp) (targetType : ValueType) (value : Expr)
    {target text : String} (first : Tidy manner caps target)
    (second : Tidy manner caps text) :
    (assignmentText op targetType value target text).Says manner.cRule level caps
      (Tidy manner caps) := by
  unfold assignmentText
  split
  · exact .done (.joint (by decide) first second)
  · have shifted : Tidy manner caps
        (target ++ " = (" ++ unsignedName targetType ++ ") " ++ target ++ " >> " ++
          delimit value text) :=
      .joint (by decide) (.spaced (unsigned_known targetType).2 first first) (second.delimit value)
    exact .done shifted
  next op _ =>
    by_cases floating : (op = .mod && targetType.isFloating) = true
    · rw [if_pos floating]
      apply (require .math).bind
      intro _ used
      have call : Tidy manner caps ("fmod(" ++ target ++ ", " ++ text ++ ")") :=
        .tail (by decide) (.joint (by decide)
          (.libraryLead (by decide) used first) second)
      have whole : target ++ " = fmod(" ++ target ++ ", " ++ text ++ ")" =
          target ++ " = " ++ ("fmod(" ++ target ++ ", " ++ text ++ ")") := by
        have mark : " = fmod(" = " = " ++ "fmod(" := by decide
        rw [mark]
        simp only [String.append_assoc]
      rw [whole]
      exact Render.Says.done (.joint (by decide) first call)
    · rw [if_neg floating]
      have known : Known joints (" " ++ op.symbol ++ "= ") := by cases op <;> decide
      exact .done (.spaced known first second)

theorem libraryCall_spells {capability : Capability} {function args : String}
    (known : (function, capability) ∈ libraryFunctions)
    (worded : Tidy manner caps args) :
    Spells manner level caps (liftM (libraryCall capability function args)) := by
  apply Says.lift
  apply (require capability).bind
  intro _ used
  exact Render.Says.done (Tidy.call known used worded)

theorem mathCall_spells (types : List ValueType) (method : String) (args : List Expr)
    (worded : ∀ text ∈ texts, Tidy manner caps text) :
    Spells manner level caps (mathCall types method args texts) := by
  have both {x y : String} (same : texts = [x, y]) : Tidy manner caps x ∧ Tidy manner caps y := by
    rw [same] at worded
    exact ⟨worded x mem_cons_self, worded y (List.mem_cons_of_mem _ mem_cons_self)⟩
  have joined : Tidy manner caps (join ", " texts) := .join (by decide) worded
  unfold mathCall
  split
  next x =>
    have inside := worded x mem_cons_self
    dsimp only
    split
    · exact libraryCall_spells (by decide) inside
    · split
      · exact libraryCall_spells (by decide) inside
      · exact libraryCall_spells (by decide) inside
  case h_2 a b x y | h_3 a b x y =>
    obtain ⟨first, second⟩ := both rfl
    dsimp only
    split
    · exact libraryCall_spells (by decide) joined
    · exact .pure (.selectText (by decide) (first.delimit a) (second.delimit b))
  next x => exact libraryCall_spells (by decide) (worded x mem_cons_self)
  · apply (Writes.lift (require .stdlib)).bind
    intro _ used
    exact Spells.pure (.libraryText (by decide) used)
  · split
    next known =>
      have listed : (method, .math) ∈ libraryFunctions :=
        List.mem_append_left _ (List.mem_map.mpr ⟨method, known, rfl⟩)
      exact libraryCall_spells listed joined
    next => exact .refuse _

theorem stringCall_spells (method : String) (worded : ∀ text ∈ texts, Tidy manner caps text)
    {receiver : Attempt String}
    (receives : Spells manner level caps receiver) :
    Spells manner level caps (stringCall method texts receiver) := by
  unfold stringCall
  split
  · apply receives.bind
    intro text worded
    exact libraryCall_spells (by decide) worded
  next i =>
    have position := worded i mem_cons_self
    apply receives.bind
    intro text worded
    exact Spells.pure (.tail (by decide) (.joint (by decide) worded position))
  next other =>
    have compared := worded other mem_cons_self
    apply receives.bind
    intro text worded
    apply (Writes.lift (require .string)).bind
    intro _ used
    have call : Tidy manner caps ("(strcmp(" ++ text ++ ", " ++ other) :=
      .joint (by decide) (.libraryLead (by decide) used worded)
        compared
    exact Spells.pure (.tail (by decide) call)
  · exact .refuse _

theorem callText_spells (types : List ValueType) (owner : Option String) (method : String)
    (args : List Expr) (worded : ∀ text ∈ texts, Tidy manner caps text)
    {receiver : Attempt String}
    (receives : Spells manner level caps receiver) :
    Spells manner level caps (callText types owner method args texts receiver) := by
  unfold callText
  split
  · exact mathCall_spells types method args worded
  · split
    case h_4 => exact stringCall_spells method worded receives
    all_goals exact libraryCall_spells (by decide) (worded _ mem_cons_self)

end Parts

mutual

theorem expr_spells : (e : Expr) → e.Over manner.admits → Spells manner level caps (expr e)
  | .literal value, clean => .lift (literalText_said clean)
  | .ident name, clean => by
    apply Says.symbols.bind
    intro table admits
    exact Spells.pure (targetName_worded admits (clean _ mem_cons_self))
  | .binary op left right, clean => by
    obtain ⟨overLeft, overRight⟩ := forall_mem_append.mp clean
    apply Says.symbols.bind
    intro table _
    apply Writes.ite
    · intro _
      exact .refuse _
    intro _
    apply (expr_spells left overLeft).bind
    intro l wordedLeft
    apply (expr_spells right overRight).bind
    intro r wordedRight
    have first := wordedLeft.delimit left
    have second := wordedRight.delimit right
    split
    · exact Spells.pure (.joint (by decide) (.lead (unsigned_known _).1 first) second)
    next =>
      apply Writes.ite
      · intro _
        apply libraryCall_spells (by decide)
        apply Tidy.join (by decide)
        intro text member
        rcases List.mem_cons.mp member with rfl | member
        · exact first
        · cases List.mem_singleton.mp member
          exact second
      · intro _
        have known (op : BinaryOp) : Known joints (" " ++ op.symbol ++ " ") := by
          cases op <;> decide
        exact Spells.pure (.spaced (known _) first second)
  | .unary op operand, clean => by
    apply (expr_spells operand clean).bind
    intro text worded
    have known : Known leads op.symbol := by cases op <;> decide
    exact Spells.pure (.lead known (worded.delimit operand))
  | .logical op left right, clean => by
    obtain ⟨overLeft, overRight⟩ := forall_mem_append.mp clean
    apply (expr_spells left overLeft).bind
    intro l wordedLeft
    apply (expr_spells right overRight).bind
    intro r wordedRight
    have known : Known joints (" " ++ op.symbol ++ " ") := by cases op <;> decide
    exact Spells.pure (.spaced known (wordedLeft.delimit left) (wordedRight.delimit right))
  | .compare op left right, clean => by
    obtain ⟨overLeft, overRight⟩ := forall_mem_append.mp clean
    apply Says.symbols.bind
    intro table _
    apply Writes.ite
    · intro strings
      apply (Writes.lift (warn _)).bind
      intro _ _
      apply (Writes.lift (require .string)).bind
      intro _ used
      apply (expr_spells left overLeft).bind
      intro l wordedLeft
      apply (expr_spells right overRight).bind
      intro r wordedRight
      have call : Tidy manner caps ("strcmp(" ++ l ++ ", " ++ r) :=
        .joint (by decide) (.libraryLead (by decide) used wordedLeft) wordedRight
      have known : Known tails (") " ++ op.symbol ++ " 0") := by
        cases op <;> first | decide | simp at strings
      have whole : "strcmp(" ++ l ++ ", " ++ r ++ ") " ++ op.symbol ++ " 0" =
          "strcmp(" ++ l ++ ", " ++ r ++ (") " ++ op.symbol ++ " 0") := by
        simp only [String.append_assoc]
      rw [whole]
      exact Spells.pure (.tail known call)
    · intro _
      apply (expr_spells left overLeft).bind
      intro l wordedLeft
      apply (expr_spells right overRight).bind
      intro r wordedRight
      have known : Known joints (" " ++ op.symbol ++ " ") := by cases op <;> decide
      exact Spells.pure (.spaced known (wordedLeft.delimit left) (wordedRight.delimit right))
  | .assign op target value, clean => by
    obtain ⟨overTarget, overValue⟩ := forall_mem_append.mp clean
    apply Says.symbols.bind
    intro table _
    apply Writes.ite
    · intro _
      exact .refuse _
    · intro _
      apply (expr_spells target overTarget).bind
      intro t wordedTarget
      apply (expr_spells value overValue).bind
      intro v wordedValue
      exact .lift (assignmentText_said op _ value wordedTarget wordedValue)
  | .update op leading target, clean => by
    apply (expr_spells target clean).bind
    intro text worded
    have known : Known leads op.symbol ∧ Known tails op.symbol := by cases op <;> decide
    cases leading with
    | true => exact Spells.pure (.lead known.1 worded)
    | false => exact Spells.pure (.tail known.2 worded)
  | .index array position, clean => by
    obtain ⟨overArray, overPosition⟩ := forall_mem_append.mp clean
    apply (expr_spells array overArray).bind
    intro a wordedArray
    apply (expr_spells position overPosition).bind
    intro i wordedPosition
    exact Spells.pure (.tail (by decide)
      (.joint (by decide) (wordedArray.delimit array) wordedPosition))
  | .member object field, clean => by
    apply Writes.ite
    · intro _
      apply arrayLength_spells
      apply (expr_spells object clean).bind
      intro text worded
      exact Spells.pure (worded.delimit object)
    · intro _
      exact memberText_spells _ field
  | .arrayLiteral items, clean => by
    apply (exprs_spell items clean).bind
    intro texts worded
    exact Spells.pure (Tidy.join (by decide) worded).braced
  | .ternary condition onTrue onFalse, clean => by
    obtain ⟨overCondition, clean⟩ := forall_mem_append.mp clean
    obtain ⟨overTrue, overFalse⟩ := forall_mem_append.mp clean
    apply (expr_spells condition overCondition).bind
    intro c wordedCondition
    apply (expr_spells onTrue overTrue).bind
    intro a wordedTrue
    apply (expr_spells onFalse overFalse).bind
    intro b wordedFalse
    exact Spells.pure (.joint (by decide)
      (.joint (by decide) (wordedCondition.delimit condition)
        (wordedTrue.delimit onTrue))
      (wordedFalse.delimit onFalse))
  | .cast type operand, clean => by
    apply (typeName_said type).bind
    intro name names
    apply (expr_spells operand clean).bind
    intro text worded
    exact Spells.pure (names.cast (worded.delimit operand))
  | .call none method args, clean => by
    apply Says.symbols.bind
    intro table _
    apply (exprs_spell args clean).bind
    intro texts worded
    exact callText_spells _ _ method args worded (.refuse _)
  | .call (some receiver) method args, clean => by
    obtain ⟨overReceiver, overArgs⟩ := forall_mem_append.mp clean
    apply Says.symbols.bind
    intro table _
    apply (exprs_spell args overArgs).bind
    intro texts worded
    apply callText_spells _ _ method args worded
    apply Writes.ite
    · intro _
      apply (expr_spells receiver overReceiver).bind
      intro text worded
      exact Spells.pure (worded.delimit receiver)
    · intro _
      exact .refuse _

theorem exprs_spell : (es : List Expr) → (∀ leaf ∈ Expr.leavesOf es, manner.admits leaf) →
    (exprs es).Says manner.cRule level caps fun texts =>
      ∀ text ∈ texts, Tidy manner caps text
  | [], clean => .pure fun text member => by cases member
  | e :: rest, clean => by
    obtain ⟨overFirst, overRest⟩ := forall_mem_append.mp clean
    apply (expr_spells e overFirst).bind
    intro first wordedFirst
    apply (exprs_spell rest overRest).bind
    intro others wordedRest
    exact Says.pure (List.forall_mem_cons.mpr ⟨wordedFirst, wordedRest⟩)

end

theorem length_spells {array : Expr} (clean : array.Over manner.admits) :
    Spells manner level caps (length array) := by
  apply arrayLength_spells
  apply (expr_spells array clean).bind
  intro text worded
  exact Spells.pure (worded.delimit array)

end C

end Retarget
