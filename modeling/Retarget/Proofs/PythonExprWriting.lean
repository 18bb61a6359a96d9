import Retarget.Proofs.PythonSpelling

/-!
# Python expressions are spelled out

Every text that the Python renderer makes of an expression, a print, a declaration or the parts of a
loop header is spelled from the leaves of what it renders, in any layout.
-/

namespace Retarget

open List (forall_mem_append mem_cons_self)

variable {texts : List String} {receiver : Attempt String}

/-- Every symbol is written under an admitted name. -/
def Diction.pythonRule (diction : Diction) : SymbolRule where
  Fits _ symbol := diction.admits (.name symbol.targetName)

namespace Python

open Text Attempt

variable {diction : Diction} {level : Nat} {caps : Caps}

def Spells (diction : Diction) (level : Nat) (caps : Caps) (attempt : Attempt String) :
    Prop :=
  attempt.Says diction.pythonRule level caps (Spelled diction.admits caps)

theorem Spells.pure {text : String} (spelled : Spelled diction.admits caps text) :
    Spells diction level caps (pure text) :=
  Says.pure spelled

theorem admits_targetName {table : SymbolTable} (admits : diction.pythonRule.Admits caps table)
    {name : String} (fine : diction.admits (.name name)) :
    diction.admits (.name (table.targetName name)) := by
  unfold SymbolTable.targetName
  split
  next symbol found => exact admits.lookup found
  next => exact fine

section Parts

theorem memberText_spells (owner : Option String) (field : String) :
    Spells diction level caps (memberText owner field) := by
  unfold memberText
  split
  case h_1 | h_2 | h_3 | h_4 => exact .pure (.own (by decide))
  case h_5 | h_6 =>
    apply (Writes.lift (.require .math)).bind
    intro _ used
    exact Spells.pure (.libraryText (by decide) used)
  · exact .refuse _

theorem castText_spells (type source : ValueType) {text : String}
    (spelled : Spelled diction.admits caps text) :
    Spells diction level caps (castText type source text) := by
  have integral : Spells diction level caps (if source = .char then
      Pure.pure (applied "ord" text) else if source.isIntegral = true then Pure.pure text
      else Pure.pure (applied "int" text)) := by
    split
    · exact .pure (spelled.applied (by decide))
    · split
      · exact .pure spelled
      · exact .pure (spelled.applied (by decide))
  unfold castText
  cases type with
  | byte | short | int | long => exact integral
  | float | double => exact .pure (spelled.applied (by decide))
  | char =>
    dsimp only
    split
    · exact .pure (spelled.applied (by decide))
    · exact .pure spelled
  | string => exact .pure (spelled.applied (by decide))
  | boolean => exact .pure (spelled.applied (by decide))
  | unknown => exact .refuse _

theorem mathApplication_said {function args : String}
    (spells : caps.contains .math = true →
      Spelled diction.admits caps (applied ("math." ++ function) args)) :
    (mathApplication function args).Says diction.pythonRule level caps
      (Spelled diction.admits caps) := by
  apply (Render.Writes.require .math).bind
  intro _ used
  exact Render.Says.done (spells used)

theorem rounded_said {function args : String} (known : function ∈ libraryFunctions)
    (spelled : Spelled diction.admits caps args) :
    (do return applied "float" (← mathApplication function args) : Render String).Says
      diction.pythonRule level caps (Spelled diction.admits caps) := by
  apply (mathApplication_said fun used => .libraryCall known used spelled).bind
  intro text spelled
  exact Render.Says.done (spelled.applied (by decide))

theorem mathCall?_said {method : String}
    (spelled : ∀ text ∈ texts, Spelled diction.admits caps text) {rendering : Render String}
    (found : mathCall? method texts = some rendering) :
    rendering.Says diction.pythonRule level caps (Spelled diction.admits caps) := by
  have applied {function : String} (known : function ++ "(" ∈ leads)
      (knownEmpty : applied function "" ∈ ownTexts) :
      (pure (applied function (join ", " texts)) : Render String).Says diction.pythonRule level
        caps (Spelled diction.admits caps) :=
    Render.Says.done (.call known knownEmpty spelled)
  unfold mathCall? at found
  split at found
  case h_1 | h_2 | h_3 =>
    cases found
    exact applied (by decide) (by decide)
  next x =>
    cases found
    have half : Spelled diction.admits caps (x ++ " + 0.5") :=
      .tail (by decide) (spelled x mem_cons_self)
    exact mathApplication_said fun used => .libraryCall (by decide) used half
  case h_5 x | h_6 x =>
    cases found
    exact rounded_said (by decide) (spelled x mem_cons_self)
  · cases found
    apply (Render.Writes.require .stdlib).bind
    intro _ used
    exact Render.Says.done (.libraryText (by decide) used)
  · split at found
    next known =>
      cases found
      exact mathApplication_said fun used =>
        .libraryCalls (List.mem_append_left _ known) used spelled
    next => cases found

theorem stringCall_spells (method : String) (args : List Expr)
    (spelled : ∀ text ∈ texts, Spelled diction.admits caps text)
    (receives : Spells diction level caps receiver) :
    Spells diction level caps (stringCall method args texts receiver) := by
  have received (f : String → String)
      (spells : ∀ text, Spelled diction.admits caps text → Spelled diction.admits caps (f text)) :
      Spells diction level caps (do return f (← receiver)) := by
    apply receives.bind
    intro text spelled
    exact Spells.pure (spells text spelled)
  unfold stringCall
  split
  · exact received _ fun _ spelled => spelled.applied (by decide)
  next i =>
    have position := spelled i mem_cons_self
    exact received _ fun _ spelled => .tail (by decide) (.joint (by decide) spelled position)
  next other text =>
    have compared := (spelled text mem_cons_self).delimit other
    exact received _ fun _ spelled => .joint (by decide) spelled compared
  case h_4 | h_5 | h_6 =>
    exact received _ fun _ spelled => .tail (by decide) spelled
  next start =>
    have begins := spelled start mem_cons_self
    exact received _ fun _ spelled => .tail (by decide) (.joint (by decide) spelled begins)
  next start stop =>
    have begins := spelled start mem_cons_self
    have ends := spelled stop (List.mem_cons_of_mem _ mem_cons_self)
    exact received _ fun _ spelled => .slice spelled begins ends
  · exact .refuse _

theorem staticCall_spells (types : List ValueType) (owner : Option String) (method : String)
    (args : List Expr) (spelled : ∀ text ∈ texts, Spelled diction.admits caps text)
    (receives : Spells diction level caps receiver) :
    Spells diction level caps (staticCall types owner method args texts receiver) := by
  unfold staticCall
  split
  case h_1 | h_2 | h_3 =>
    exact .pure ((spelled _ mem_cons_self).applied (by decide))
  · exact .pure ((spelled _ mem_cons_self).stringForm _ _)
  · exact stringCall_spells method args spelled receives

theorem callText_spells (types : List ValueType) (owner : Option String) (method : String)
    (args : List Expr) (spelled : ∀ text ∈ texts, Spelled diction.admits caps text)
    (receives : Spells diction level caps receiver) :
    Spells diction level caps (callText types owner method args texts receiver) := by
  unfold callText
  split
  next rendering found =>
    split at found
    · exact .lift (mathCall?_said spelled found)
    · cases found
  next => exact staticCall_spells types owner method args spelled receives

end Parts

mutual

theorem expr_spells : (e : Expr) → e.Over diction.admits → Spells diction level caps (expr e)
  | .literal value, clean => .pure (.literalText clean)
  | .ident name, clean => by
    apply Says.symbols.bind
    intro table admits
    exact Spells.pure (.name (admits_targetName admits (clean _ mem_cons_self)))
  | .binary op left right, clean => by
    obtain ⟨overLeft, overRight⟩ := forall_mem_append.mp clean
    apply Says.symbols.bind
    intro table _
    apply (expr_spells left overLeft).bind
    intro l spelledLeft
    apply (expr_spells right overRight).bind
    intro r spelledRight
    split
    · exact Spells.pure (.joint (by decide) (spelledLeft.concatenated table left)
        (spelledRight.concatenated table right))
    · exact Spells.pure ((spelledLeft.numericForm _ left).binaryText op _ _
        (spelledRight.numericForm _ right))
  | .unary op operand, clean => by
    apply (expr_spells operand clean).bind
    intro text spelled
    split
    · exact Spells.pure (.lead (by decide) (spelled.delimit operand))
    next notNot =>
      have known : op.symbol ∈ leads := by cases op <;> first | decide | exact absurd rfl notNot
      exact Spells.pure (.lead known (spelled.delimit operand))
  | .logical op left right, clean => by
    obtain ⟨overLeft, overRight⟩ := forall_mem_append.mp clean
    apply (expr_spells left overLeft).bind
    intro l spelledLeft
    apply (expr_spells right overRight).bind
    intro r spelledRight
    have known : " " ++ logicalWord op ++ " " ∈ joints := by cases op <;> decide
    exact Spells.pure (.spaced known (spelledLeft.delimit left) (spelledRight.delimit right))
  | .compare op left right, clean => by
    obtain ⟨overLeft, overRight⟩ := forall_mem_append.mp clean
    have compared (mixed : Bool) (leftType rightType : ValueType) :
        Spells diction level caps (do
          let l := comparedForm mixed leftType left (← expr left)
          let r := comparedForm mixed rightType right (← expr right)
          return l ++ " " ++ op.symbol ++ " " ++ r) := by
      apply (expr_spells left overLeft).bind
      intro l spelledLeft
      apply (expr_spells right overRight).bind
      intro r spelledRight
      have known : " " ++ op.symbol ++ " " ∈ joints := by cases op <;> decide
      exact Spells.pure (.spaced known (spelledLeft.comparedForm _ _ left)
        (spelledRight.comparedForm _ _ right))
    apply Says.symbols.bind
    intro table _
    dsimp only
    split
    · apply (Writes.lift (.warn _)).bind
      intro _ _
      exact compared _ _ _
    · exact compared _ _ _
  | .assign op target value, clean => .refuse _
  | .update op leading target, clean => .refuse _
  | .index array position, clean => by
    obtain ⟨overArray, overPosition⟩ := forall_mem_append.mp clean
    apply (expr_spells array overArray).bind
    intro a spelledArray
    apply (Says.ofExcept (fromEnd array position)).bind
    intro distance _
    have spelledArray := spelledArray.delimit array
    cases distance with
    | some k => exact Spells.pure (.tail (by decide) (.joint (by decide) spelledArray (.number k)))
    | none =>
      apply (expr_spells position overPosition).bind
      intro i spelledPosition
      exact Spells.pure (.tail (by decide) (.joint (by decide) spelledArray spelledPosition))
  | .member object field, clean => by
    apply Writes.ite
    · intro _
      apply (expr_spells object clean).bind
      intro text spelled
      exact Spells.pure (spelled.applied (by decide))
    · intro _
      exact memberText_spells _ field
  | .arrayLiteral items, clean => by
    apply (exprs_spell items clean).bind
    intro texts spelled
    exact Spells.pure (.listed spelled)
  | .ternary condition onTrue onFalse, clean => by
    obtain ⟨overCondition, clean⟩ := forall_mem_append.mp clean
    obtain ⟨overTrue, overFalse⟩ := forall_mem_append.mp clean
    apply (expr_spells condition overCondition).bind
    intro c spelledCondition
    apply (expr_spells onTrue overTrue).bind
    intro a spelledTrue
    apply (expr_spells onFalse overFalse).bind
    intro b spelledFalse
    exact Spells.pure (.joint (by decide)
      (.joint (by decide) (spelledTrue.delimit onTrue)
        (spelledCondition.delimit condition))
      (spelledFalse.delimit onFalse))
  | .cast type operand, clean => by
    apply Says.symbols.bind
    intro table _
    apply (expr_spells operand clean).bind
    intro text spelled
    exact castText_spells type _ spelled
  | .call none method args, clean => by
    apply Says.symbols.bind
    intro table _
    apply (exprs_spell args clean).bind
    intro texts spelled
    exact callText_spells _ _ method args spelled (.refuse _)
  | .call (some receiver) method args, clean => by
    obtain ⟨overReceiver, overArgs⟩ := forall_mem_append.mp clean
    apply Says.symbols.bind
    intro table _
    apply (exprs_spell args overArgs).bind
    intro texts spelled
    apply callText_spells _ _ method args spelled
    apply Writes.ite
    · intro _
      apply (expr_spells receiver overReceiver).bind
      intro text spelled
      exact Spells.pure (spelled.delimit receiver)
    · intro _
      exact .refuse _

theorem exprs_spell : (es : List Expr) → (∀ leaf ∈ Expr.leavesOf es, diction.admits leaf) →
    (exprs es).Says diction.pythonRule level caps fun texts =>
      ∀ text ∈ texts, Spelled diction.admits caps text
  | [], clean => .pure fun text member => by cases member
  | e :: rest, clean => by
    obtain ⟨overFirst, overRest⟩ := forall_mem_append.mp clean
    apply (expr_spells e overFirst).bind
    intro first spelledFirst
    apply (exprs_spell rest overRest).bind
    intro others spelledRest
    exact Says.pure (List.forall_mem_cons.mpr ⟨spelledFirst, spelledRest⟩)

end

section Values

variable {e : Expr} (clean : e.Over diction.admits)

include clean

theorem operand_spells : Spells diction level caps (operand e) := by
  apply (expr_spells e clean).bind
  intro text spelled
  exact Spells.pure (spelled.delimit e)

theorem numericOperand_spells : Spells diction level caps (numericOperand e) := by
  apply Says.symbols.bind
  intro table _
  apply (expr_spells e clean).bind
  intro text spelled
  exact Spells.pure (spelled.numericForm _ e)

theorem stringValue_spells : Spells diction level caps (stringValue e) := by
  apply Says.symbols.bind
  intro table _
  apply (expr_spells e clean).bind
  intro text spelled
  exact Spells.pure (spelled.stringForm _ e)

theorem printedValue_spells : Spells diction level caps (printedValue e) := by
  apply Says.symbols.bind
  intro table _
  apply (expr_spells e clean).bind
  intro text spelled
  split
  · exact Spells.pure (spelled.booleanForm e)
  · exact Spells.pure spelled

end Values

theorem concatenation_spells {parts : List Expr} (clean : ∀ part ∈ parts, part.Over diction.admits)
    (filled : parts ≠ []) : Spells diction level caps (concatenation parts) := by
  have spells : (parts.mapM stringValue).Says diction.pythonRule level caps fun texts =>
      texts.length = parts.length ∧ ∀ text ∈ texts, Spelled diction.admits caps text :=
    Says.mapM fun part member => stringValue_spells (clean part member)
  apply spells.bind
  rintro texts ⟨count, spelled⟩
  cases texts with
  | nil => exact absurd (List.length_eq_zero_iff.mp count.symm) filled
  | cons text rest => exact Spells.pure (.join (by decide) spelled)

theorem assignment_spells (op : AssignOp) {target value : Expr}
    (overTarget : target.Over diction.admits) (overValue : value.Over diction.admits) :
    Spells diction level caps (assignment op target value) := by
  apply Says.symbols.bind
  intro table _
  apply (expr_spells target overTarget).bind
  intro t spelledTarget
  cases op with
  | plain =>
    apply (expr_spells value overValue).bind
    intro text spelled
    exact Spells.pure (.joint (by decide) spelledTarget spelled)
  | compound op =>
    dsimp only
    split
    · apply (stringValue_spells overValue).bind
      intro text spelled
      exact Spells.pure (.joint (by decide) spelledTarget spelled)
    split
    · apply (numericOperand_spells overValue).bind
      intro text spelled
      have known : " " ++ op.symbol ++ " " ∈ joints := by cases op <;> decide
      have code : Spelled diction.admits caps (applied "ord" t) :=
        spelledTarget.applied (by decide)
      exact Spells.pure (.joint (by decide) spelledTarget
        ((Spelled.spaced known code spelled).applied (by decide)))
    split
    · apply (numericOperand_spells overValue).bind
      intro text spelled
      exact Spells.pure (.joint (by decide) spelledTarget spelled)
    split
    · apply (operand_spells overValue).bind
      intro text spelled
      have copied : Spelled diction.admits caps (t ++ " = (" ++ t) :=
        .joint (by decide) spelledTarget spelledTarget
      exact Spells.pure (.joint (by decide)
        (.joint (by decide) copied (.mask (table.typeOf target))) spelled)
    · apply (numericOperand_spells overValue).bind
      intro text spelled
      have known : " " ++ op.symbol ++ "= " ∈ joints := by cases op <;> decide
      exact Spells.pure (.spaced known spelledTarget spelled)

theorem exprStatement_spells {e : Expr} (clean : e.Over diction.admits) :
    Spells diction level caps (exprStatement e) := by
  unfold exprStatement
  split
  next op _ target =>
    apply (expr_spells target clean).bind
    intro t spelled
    apply Says.symbols.bind
    intro table _
    have code : Spelled diction.admits caps (applied "ord" t) :=
      spelled.applied (by decide)
    split
    · have known : " " ++ updateSign op ++ " 1" ∈ tails := by cases op <;> decide
      exact Spells.pure (.joint (by decide) spelled
        ((Spelled.ended known code).applied (by decide)))
    · have known : " " ++ updateSign op ++ "= 1" ∈ tails := by cases op <;> decide
      exact Spells.pure (.ended known spelled)
  next op target value =>
    obtain ⟨overTarget, overValue⟩ := forall_mem_append.mp clean
    exact assignment_spells op overTarget overValue
  next => exact expr_spells e clean

end Python

end Retarget
