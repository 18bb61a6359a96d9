import Retarget.Proofs.Fresh
import Retarget.Proofs.Settle
import Retarget.Render.CStmt

/-!
# C statements are orderly

An expression or a print in C reads the symbol table, gives warnings and takes headers into use. A
declaration is atomic: all that may refuse it is rendered before its name is declared.
-/

namespace Retarget.C

open Attempt (Steady Consulting)
open Attempt.Consulting (refuse require warn)
open Attempt.Certain (line)

theorem literalText_consulting (value : Literal) : (literalText value).Consulting True := by
  cases value with
  | bool value => exact (Render.Consulting.require _).bind fun _ => .done _
  | int _ | long _ | float _ | double _ | char _ | string _ | null => exact .done _

theorem memberText_consulting (owner : Option String) (field : String) :
    (memberText owner field).Consulting True := by
  unfold memberText
  split
  · exact (require _).bind fun _ => .pure _
  · exact .refuse _

theorem checkMeasured_consulting (symbol : Symbol) : (checkMeasured symbol).Consulting True := by
  unfold checkMeasured
  dsimp only
  split
  · refine (refuse _).bind fun _ => ?_
    split
    · exact .warn _
    · exact .pure ()
  · split
    · exact .warn _
    · exact .pure ()

theorem arrayLength_consulting (array : Expr) {operand : Attempt String}
    (consulting : operand.Consulting True) : (arrayLength array operand).Consulting True := by
  refine Consulting.symbols.bind fun table => ?_
  dsimp only
  split
  · refine (Consulting.pure _).bind fun text => ?_
    split
    · exact (checkMeasured_consulting _).bind fun _ => .pure _
    · exact .pure _
  · refine consulting.bind fun text => ?_
    split
    · exact (checkMeasured_consulting _).bind fun _ => .pure _
    · exact .pure _

theorem assignmentText_consulting (op : AssignOp) (targetType : ValueType) (value : Expr)
    (targetText valueText : String) :
    (assignmentText op targetType value targetText valueText).Consulting True := by
  unfold assignmentText
  split
  · exact .done _
  · exact .done _
  · split
    · exact (Render.Consulting.require _).bind fun _ => .done _
    · exact .done _

theorem libraryCall_consulting (capability : Capability) (name args : String) :
    (libraryCall capability name args).Consulting True :=
  (Render.Consulting.require _).bind fun _ => .done _

theorem mathCall_consulting (types : List ValueType) (method : String) (args : List Expr)
    (texts : List String) : (mathCall types method args texts).Consulting True := by
  unfold mathCall
  dsimp only
  split
  · split
    · exact .lift (libraryCall_consulting _ _ _)
    · exact .lift (libraryCall_consulting _ _ _)
  case h_2 | h_3 =>
    split
    · exact .lift (libraryCall_consulting _ _ _)
    · exact .pure _
  · exact .lift (libraryCall_consulting _ _ _)
  · exact (require _).bind fun _ => .pure _
  · split
    · exact .lift (libraryCall_consulting _ _ _)
    · exact .refuse _

theorem stringCall_consulting (method : String) (texts : List String) {receiver : Attempt String}
    (consulting : receiver.Consulting True) : (stringCall method texts receiver).Consulting True := by
  unfold stringCall
  split
  · exact consulting.bind fun _ => .lift (libraryCall_consulting _ _ _)
  · exact consulting.bind fun _ => .pure _
  · exact consulting.bind fun _ => (require _).bind fun _ => .pure _
  · exact .refuse _

theorem callText_consulting (types : List ValueType) (owner : Option String) (method : String)
    (args : List Expr) (texts : List String) {receiver : Attempt String}
    (consulting : receiver.Consulting True) :
    (callText types owner method args texts receiver).Consulting True := by
  unfold callText
  split
  · exact mathCall_consulting _ _ _ _
  · split
    case h_4 => exact stringCall_consulting _ _ consulting
    all_goals exact .lift (libraryCall_consulting _ _ _)

mutual

theorem expr_consulting : (e : Expr) → (expr e).Consulting True
  | .literal value => .lift (literalText_consulting value)
  | .ident name => Consulting.symbols.bind fun _ => .pure _
  | .binary op left right => by
    refine Consulting.symbols.bind fun table => ?_
    split
    · exact .refuse _
    · refine (expr_consulting left).bind fun _ => (expr_consulting right).bind fun _ => ?_
      split
      · exact .pure _
      · split
        · exact .lift (libraryCall_consulting _ _ _)
        · exact .pure _
  | .unary op operand => (expr_consulting operand).bind fun _ => .pure _
  | .logical op left right =>
    (expr_consulting left).bind fun _ => (expr_consulting right).bind fun _ => .pure _
  | .compare op left right => by
    refine Consulting.symbols.bind fun table => ?_
    split
    · exact (warn _).bind fun _ => (require _).bind fun _ =>
        (expr_consulting left).bind fun _ => (expr_consulting right).bind fun _ => .pure _
    · exact (expr_consulting left).bind fun _ => (expr_consulting right).bind fun _ => .pure _
  | .assign op lhs value => by
    refine Consulting.symbols.bind fun table => ?_
    split
    · exact .refuse _
    · exact (expr_consulting lhs).bind fun _ => (expr_consulting value).bind fun _ =>
        .lift (assignmentText_consulting _ _ _ _ _)
  | .update op leading lhs => (expr_consulting lhs).bind fun _ => .pure _
  | .index array position =>
    (expr_consulting array).bind fun _ => (expr_consulting position).bind fun _ => .pure _
  | .member object field => by
    rw [expr]
    split
    · exact arrayLength_consulting object ((expr_consulting object).bind fun _ => .pure _)
    · exact memberText_consulting _ _
  | .arrayLiteral items => (exprs_consulting items).bind fun _ => .pure _
  | .ternary condition onTrue onFalse =>
    (expr_consulting condition).bind fun _ => (expr_consulting onTrue).bind fun _ =>
      (expr_consulting onFalse).bind fun _ => .pure _
  | .cast type operand =>
    (typeName_consulting type).bind fun _ => (expr_consulting operand).bind fun _ => .pure _
  | .call none method args =>
    Consulting.symbols.bind fun _ => (exprs_consulting args).bind fun _ =>
      callText_consulting _ _ _ _ _ (.refuse _)
  | .call (some receiver) method args => by
    refine Consulting.symbols.bind fun table => (exprs_consulting args).bind fun texts =>
      callText_consulting _ _ _ _ _ ?_
    split
    · exact (expr_consulting receiver).bind fun _ => .pure _
    · exact .refuse _

theorem exprs_consulting : (es : List Expr) → (exprs es).Consulting True
  | [] => .pure _
  | e :: rest => (expr_consulting e).bind fun _ => (exprs_consulting rest).bind fun _ => .pure _

end

theorem formatValue_consulting (part : Expr) : (formatValue part).Consulting True := by
  refine Consulting.symbols.bind fun table => (expr_consulting part).bind fun arg => ?_
  split
  · exact (warn _).bind fun _ => .pure _
  · exact .pure _

theorem formatParts_consulting (parts : List Expr) : (formatParts parts).Consulting True := by
  induction parts with
  | nil => exact .pure _
  | cons part rest ih =>
    rw [formatParts]
    split
    · exact (Consulting.pure _).bind fun _ => ih.bind fun _ => .pure _
    · exact (formatValue_consulting part).bind fun _ => ih.bind fun _ => .pure _

theorem formattedPrint_consulting (args : List Expr) : (formattedPrint args).Consulting True := by
  unfold formattedPrint
  split
  · exact .refuse _
  · split
    · exact .refuse _
    · exact Consulting.symbols.bind fun _ => (exprs_consulting _).bind fun _ => .pure _

theorem print_consulting (p : Print) : (print p).Consulting True := by
  unfold print
  split
  · exact formattedPrint_consulting _
  · exact Consulting.symbols.bind fun _ => (formatParts_consulting _).bind fun _ => .pure _

section Contained

variable {target : Target} {extent : Extent}

theorem expr_orderly (e : Expr) : (expr e).Orderly target extent :=
  (expr_consulting e).orderly

theorem exprs_orderly (es : List Expr) : (exprs es).Orderly target extent :=
  (exprs_consulting es).orderly

theorem length_orderly (array : Expr) : (length array).Orderly target extent :=
  (arrayLength_consulting array ((expr_consulting array).bind fun _ => .pure _)).orderly

end Contained

/-! ## Statements -/

variable {body : Render (List String)}

variable {target : Target} {extent : Extent}

theorem initialValue_orderly (name : String) (type : ValueType) (init : Option Expr) :
    (initialValue name type init).Orderly target extent := by
  unfold initialValue
  split
  · exact .pure _
  · refine Steady.symbols.bind fun table => ?_
    split
    · exact (Steady.warn _).bind fun _ => expr_orderly _
    · exact expr_orderly _

section Declarations

variable {holds : Symbol → Prop} {name : String} {type element : ValueType} {dimensions : Nat}
  {written : String}

theorem declarator_declares (holds : Symbol → Prop)
    (fits : ∀ typed, holds { Symbol.scalar name type with targetType := typed })
    (init : Option Expr) : (declarator name type init).Declares .c holds := by
  refine .after (typeName_steady type) fun written => ?_
  refine .after (initialValue_orderly name type init) fun value => ?_
  exact .andThen (.declareFor (fits _)) fun _ => .pure _

theorem declareVariable_declares (holds : Symbol → Prop)
    (fits : ∀ typed, holds { Symbol.scalar name type with targetType := typed })
    (init : Option Expr) : (declareVariable name type init).Declares .c holds := by
  refine .after .symbols fun table => ?_
  split
  next value found =>
    obtain ⟨-, isText⟩ := Option.filter_eq_some_iff.mp found
    simp only [Bool.and_eq_true, decide_eq_true_eq] at isText
    obtain ⟨rfl, -⟩ := isText
    refine .after .symbols fun table => .after (formatParts_consulting _).orderly fun format => ?_
    refine .andThen (.declareFor (fits _)) fun target => ?_
    refine (line _).bind fun storage => ?_
    exact (line _).bind fun fill => .pure _
  next => exact (declarator_declares holds fits init).andThen fun _ => .oneLine _

section Stored

variable (fits : ∀ size typed,
  holds { Symbol.array name element dimensions size with targetType := typed })

include fits

theorem literalArray_declares (items : List Expr) :
    (literalArray name element dimensions written items).Declares .c holds := by
  unfold literalArray
  split
  · exact .refuse _
  · refine .after (.ofExcept _) fun extents => .after (expr_orderly _) fun values => ?_
    exact .andThen (.declareFor (fits _ _)) fun _ => .oneLine _

theorem allocatedArray_declares (extents : List Expr) :
    (allocatedArray name element dimensions written extents).Declares .c holds := by
  unfold allocatedArray
  split
  · exact .refuse _
  refine .after (.ofExcept _) fun isEmpty => ?_
  split
  · exact .refuse _
  refine .after (.ofExcept _) fun isConstant => .after (.ofExcept _) fun size => ?_
  refine .after (exprs_orderly _) fun texts => .andThen (.declareFor (fits _ _)) fun target => ?_
  split
  · exact .oneLine _
  · refine (Attempt.Certain.lift (.require _)).bind fun _ => ?_
    refine (line _).bind fun storage => ?_
    exact (line _).bind fun fill => .pure _

theorem clonedArray_declares (source : Expr) :
    (clonedArray name element dimensions written source).Declares .c holds := by
  refine .after (expr_orderly _) fun text => .after (length_orderly _) fun count => ?_
  refine .after .symbols fun table => ?_
  split
  · refine .andThen (.declareFor (fits _ _)) fun target => ?_
    refine (Attempt.Certain.lift .symbols).bind fun table => ?_
    refine (Attempt.Certain.lift .settings).bind fun settings => ?_
    refine (Attempt.Certain.lift (.ofExcept (.inl trivial))).bind fun unit => ?_
    refine (line _).bind fun storage => ?_
    refine (line _).bind fun header => ?_
    refine (line _).bind fun copy => ?_
    exact (line _).bind fun close => .pure _
  · refine .andThen (.declareFor (fits _ _)) fun target => ?_
    refine (Attempt.Certain.lift (.require _)).bind fun _ => ?_
    refine (line _).bind fun storage => ?_
    exact (line _).bind fun copy => .pure _

end Stored

theorem aliasArray_declares (fits : ∀ typed aliasOf,
      holds { Symbol.array name element dimensions none with targetType := typed, aliasOf })
    (source : Expr) : (aliasArray name element dimensions written source).Declares .c holds := by
  unfold aliasArray
  split
  · exact .refuse _
  · refine .after (expr_orderly _) fun text => .after .symbols fun table => ?_
    exact .andThen (.declareFor (fits _ _)) fun _ => .oneLine _

theorem nullArray_declares
    (fits : ∀ typed, holds { Symbol.array name element dimensions none with targetType := typed }) :
    (nullArray name element dimensions written).Declares .c holds := by
  unfold nullArray
  split
  · exact .refuse _
  · exact .after (.warn _) fun _ => .andThen (.declareFor (fits _)) fun _ => .oneLine _

theorem declareArrayOf_declares (holds : Symbol → Prop) {init : ArrayInit}
    (fits : ∀ size typed aliasOf, aliasOf = none ∨ (∃ source, init = .alias source) →
      holds { Symbol.array name element dimensions size with targetType := typed, aliasOf }) :
    (declareArrayOf name element dimensions init).Declares .c holds := by
  refine .after (typeName_steady element) fun written => ?_
  have fresh (size : Option Nat) (typed : Option String) :
      holds { Symbol.array name element dimensions size with targetType := typed } :=
    fits size typed none (.inl rfl)
  match init with
  | .literal items => exact literalArray_declares fresh items
  | .clone source => exact clonedArray_declares fresh source
  | .allocate extents => exact allocatedArray_declares fresh extents
  | .alias source =>
    exact aliasArray_declares (fun typed aliasOf => fits none typed aliasOf (.inr ⟨source, rfl⟩))
      source
  | .absent => exact nullArray_declares (fresh none)

end Declarations

theorem commentLines_orderly (comment : Comment) :
    (commentLines comment).Orderly target extent := by
  refine Render.Steady.settings.bind fun settings => ?_
  split
  · exact .done _
  · split
    · exact .oneLine _
    · split
      · exact .oneLine _
      · exact .commentLines _ _
    · split
      · exact (Render.Steady.line _).bind fun _ =>
          (Render.Steady.mapM (fun _ => .line _) _).bind fun _ =>
          (Render.Steady.line _).bind fun _ => .done _
      · exact .commentLines _ _

theorem braced_orderly (header : String) (orderly : body.Orderly target .declaring) :
    (braced header body).Orderly target extent :=
  (Render.Steady.line _).bind fun _ => orderly.nested.bind fun _ =>
    (Render.Steady.line _).bind fun _ => .done _

theorem initClauses_orderly (declared : Bool) (parts : List Stmt) :
    (initClauses declared parts).Orderly .c .declaring := by
  fun_induction initClauses declared parts with
  | case1 => exact .pure _
  | case2 declared name type init rest ih =>
    refine (typeName_steady type).bind fun _ => ?_
    refine (declarator_declares (fun _ => True) (fun _ => trivial) init).orderly.bind fun _ => ?_
    exact ih.bind fun _ => .pure _
  | case3 => exact .refuse _
  | case4 declared e rest _ ih => exact (expr_orderly e).bind fun _ => ih.bind fun _ => .pure _
  | case5 => exact .refuse _

theorem initClause_orderly (init : Option Stmt) : (initClause init).Orderly .c .declaring := by
  unfold initClause
  split
  · exact .pure _
  · exact (declarator_declares (fun _ => True) (fun _ => trivial) _).orderly
  · exact expr_orderly _
  · exact (initClauses_orderly _ _).bind fun _ => .pure _
  · exact .refuse _

theorem conditionClause_orderly (condition : Option Expr) :
    (conditionClause condition).Orderly target extent := by
  cases condition with
  | none => exact .pure _
  | some e => exact (expr_orderly e).bind fun _ => .pure _

theorem forLines_orderly (init : Option Stmt) (condition : Option Expr) (update : List Expr)
    (orderly : body.Orderly .c .declaring) :
    (forLines init condition update body).Orderly .c extent := by
  refine .inScope ((initClause_orderly init).bind fun first => ?_)
  refine (conditionClause_orderly condition).bind fun second => ?_
  exact (exprs_orderly update).bind fun third => .lift (braced_orderly _ orderly)

theorem declareIndex_orderly (name : String) : (declareIndex name).Orderly .c .declaring := by
  have fresh : (Render.declareFresh "i" .int).Orderly .c .declaring :=
    .declareFresh _ _ SymbolTable.freshName_index_not_reserved
  refine fresh.bind fun index => ?_
  split
  · exact fresh
  · exact .done index

theorem bindElement_orderly (source : Symbol) (type : ValueType) (name array index : String) :
    (bindElement source type name array index).Orderly .c .declaring := by
  refine (typeName_steady type).bind fun written => ?_
  split
  · exact .bind (.lift (.declareFor _)) fun _ => .line _
  · exact .bind (.lift (.declareFor _)) fun _ => .line _

theorem forEachLines_orderly (type : ValueType) (name : String) (iterable : Expr)
    (orderly : body.Orderly .c .declaring) :
    (forEachLines type name iterable body).Orderly .c extent := by
  refine Steady.symbols.bind fun table => ?_
  dsimp only
  split
  · exact .refuse _
  · refine (expr_orderly iterable).bind fun array => (length_orderly iterable).bind fun count => ?_
    refine .inScope ((Steady.lift (declareIndex_orderly name)).bind fun index => ?_)
    refine .bind (.indented (.inl trivial) (bindElement_orderly _ _ _ _ _)) ?_
    intro binding
    refine (Steady.line _).bind fun header => ?_
    refine (Steady.lift orderly.nested).bind fun inside => ?_
    exact (Steady.line _).bind fun close => .pure _

theorem doWhileLines_orderly (condition : Expr) (orderly : body.Orderly target .declaring) :
    (doWhileLines condition body).Orderly target extent := by
  refine (Steady.line _).bind fun first => ?_
  refine (Steady.lift orderly.nested).bind fun inside => ?_
  refine (expr_orderly condition).bind fun text => ?_
  exact (Steady.line _).bind fun last => .pure _

theorem labelText_orderly (label : SwitchLabel) : (labelText label).Orderly target extent := by
  cases label with
  | value e => exact (expr_orderly e).bind fun _ => .pure _
  | default => exact .pure _

theorem labelLines_orderly (opensBrace : Bool) (labels : List String) :
    (labelLines opensBrace labels).Orderly target extent := by
  fun_induction labelLines opensBrace labels with
  | case1 => exact .done _
  | case2 => exact .oneLine _
  | case3 label rest _ ih => exact (Render.Steady.line _).bind fun _ => ih.bind fun _ => .done _

theorem labelledLines_orderly (labels : List String) (declares : Bool)
    (orderly : body.Orderly target .declaring) :
    (labelledLines labels declares body).Orderly target extent := by
  refine .indented (.inl trivial) ((labelLines_orderly _ _).bind fun _ => ?_)
  refine orderly.nested.bind fun _ => ?_
  split
  · exact (Render.Steady.oneLine _).bind fun _ => .done _
  · exact .bind (.done _) fun _ => .done _

theorem caseLines_orderly (labels : List SwitchLabel) (declares : Bool)
    (orderly : body.Orderly target .declaring) :
    (caseLines labels declares body).Orderly target extent :=
  (Steady.mapM labelText_orderly labels).bind fun _ =>
    .lift (labelledLines_orderly _ _ orderly)

theorem linkLines_orderly (isFirst : Bool) (discriminant : String) (labels : List Expr)
    (orderly : body.Orderly target .declaring) :
    (linkLines isFirst discriminant labels body).Orderly target extent := by
  have tested (label : Expr) : (stringTest discriminant label).Orderly target extent :=
    (expr_orderly label).bind fun _ => .pure _
  refine (Steady.mapM tested labels).bind fun tests => ?_
  refine (Steady.line _).bind fun header => ?_
  exact (Steady.lift orderly.nested).bind fun inside => .pure _

theorem chainEnd_orderly (chain : List String) {fallback : Option (Render (List String))}
    (orderly : ∀ body ∈ fallback, body.Orderly target .declaring) :
    (chainEnd chain fallback).Orderly target extent := by
  unfold chainEnd
  split
  next body =>
    exact (Render.Steady.line _).bind fun _ => (orderly body rfl).nested.bind fun _ =>
      (Render.Steady.line _).bind fun _ => .done _
  next =>
    split
    · exact .done _
    · exact (Render.Steady.line _).bind fun _ => .done _

-- Each case follows an equation of the renderer, which holds by definition.
mutual

theorem stmt_orderly : (s : Stmt) → (stmt s).Orderly .c s.extent
  | .declare name type init =>
    (declareVariable_declares (fun _ => True) (fun _ => trivial) init).orderly
  | .declareArray name element dimensions init =>
    (declareArrayOf_declares (fun _ => True) fun _ _ _ _ => trivial).orderly
  | .expr e => (expr_orderly e).bind fun _ => .oneLine _
  | .print p => (print_consulting p).orderly.bind fun _ => .oneLine _
  | .conditional condition body elifs otherwise => by
    rw [stmt]
    refine (expr_orderly condition).bind fun test => ?_
    refine (Steady.line _).bind fun header => ?_
    refine (Steady.lift (stmts_orderly body).nested).bind fun inside => ?_
    refine (branches_orderly elifs).bind fun middle => ?_
    cases otherwise with
    | none =>
      refine (Steady.pure _).bind fun rest => ?_
      exact (Steady.line _).bind fun close => .pure _
    | some block =>
      refine (Steady.line _).bind fun elseHeader => ?_
      refine (Steady.lift (stmts_orderly block).nested).bind fun elseInside => ?_
      refine (Steady.pure _).bind fun rest => ?_
      exact (Steady.line _).bind fun close => .pure _
  | .switch discriminant cases => by
    refine Steady.symbols.bind fun table => ?_
    split
    · refine (Steady.lift (.warnFallthrough cases)).bind fun _ => ?_
      refine (Steady.require _).bind fun _ => ?_
      refine (expr_orderly discriminant).bind fun text => ?_
      refine (links_orderly true text cases).bind fun chain => ?_
      exact .lift (chainEnd_orderly chain (defaultBody_orderly cases))
    · refine (expr_orderly discriminant).bind fun text => ?_
      refine (Steady.line _).bind fun header => ?_
      refine (nativeCases_orderly cases).bind fun inside => ?_
      exact (Steady.line _).bind fun close => .pure _
  | .forLoop init condition update body =>
    forLines_orderly init condition update (stmts_orderly body)
  | .whileLoop condition body =>
    (expr_orderly condition).bind fun _ => .lift (braced_orderly _ (stmts_orderly body))
  | .doWhile condition body => doWhileLines_orderly condition (stmts_orderly body)
  | .forEach type name iterable body => forEachLines_orderly type name iterable (stmts_orderly body)
  | .breakStmt | .continueStmt | .returnStmt none => .oneLine _
  | .returnStmt (some value) => (Steady.warn _).bind fun _ => .oneLine _
  | .comment comment => .lift (commentLines_orderly comment)
  | .block body => .lift (braced_orderly _ (stmts_orderly body))
  | .sequence parts => .lift (stmts_orderly parts)
  | .unsupported kind text => .refuse _

theorem stmts_orderly : (block : List Stmt) → (stmts block).Orderly .c .declaring
  | [] => .done _
  | s :: rest =>
    (Render.settle_steady none s (stmt_orderly s)).bind fun _ =>
      (stmts_orderly rest).bind fun _ => .done _

theorem stmtsOfCase_orderly : (block : List Stmt) → (stmtsOfCase block).Orderly .c .declaring
  | [] => .done _
  | s :: rest => by
    unfold stmtsOfCase
    split
    · exact .done _
    · exact (Render.settle_steady none s (stmt_orderly s)).bind fun _ =>
        (stmtsOfCase_orderly rest).bind fun _ => .done _

theorem branches_orderly : (elifs : List Branch) → (branches elifs).Orderly .c .contained
  | [] => .pure _
  | .mk condition body :: rest => by
    refine (expr_orderly condition).bind fun test => ?_
    refine (Steady.line _).bind fun header => ?_
    refine (Steady.lift (stmts_orderly body).nested).bind fun inside => ?_
    exact (branches_orderly rest).bind fun others => .pure _

theorem nativeCases_orderly : (cases : List Case) → (nativeCases cases).Orderly .c .contained
  | [] => .pure _
  | .mk labels body :: rest =>
    (caseLines_orderly labels _ (stmts_orderly body)).bind fun _ =>
      (nativeCases_orderly rest).bind fun _ => .pure _

theorem links_orderly (isFirst : Bool) (discriminant : String) :
    (cases : List Case) → (links isFirst discriminant cases).Orderly .c .contained
  | [] => .pure _
  | .mk labels body :: rest => by
    unfold links
    split
    · exact links_orderly isFirst discriminant rest
    · exact (linkLines_orderly isFirst discriminant _ (stmtsOfCase_orderly body)).bind fun _ =>
        (links_orderly false discriminant rest).bind fun _ => .pure _

theorem defaultBody_orderly : (cases : List Case) → ∀ body ∈ defaultBody cases,
    body.Orderly .c .declaring
  | [], _, member => by
    cases member
  | .mk labels block :: rest, body, member => by
    rw [defaultBody] at member
    split at member
    next later found =>
      cases member
      exact defaultBody_orderly rest body found
    next =>
      split at member
      · cases member
        exact stmtsOfCase_orderly block
      · cases member

end

theorem stmt_atomic (s : Stmt) : (stmt s).Atomic .c := by
  have ofContained (s : Stmt) (contained : s.extent = .contained) : (stmt s).Atomic .c :=
    .ofContained (contained ▸ stmt_orderly s)
  cases s with
  | declare name type init =>
    exact (declareVariable_declares (fun _ => True) (fun _ => trivial) init).toAtomic
  | declareArray name element dimensions init =>
    exact (declareArrayOf_declares (fun _ => True) fun _ _ _ _ => trivial).toAtomic
  | sequence parts =>
    -- Its parts may declare, but each is settled on its own, so the sequence is never refused.
    exact (Attempt.Certain.lift (stmts_orderly parts)).atomic
  | _ => exact ofContained _ rfl

end Retarget.C
