import Mathlib.Data.List.Find
import Retarget.Lower.Stmt

/-!
# Comments in expressions

A comment is a named child and may stand under any node. Operands that are found by their role and
the items of a list are read the same with comments among them and without.
-/

namespace Retarget

namespace Node

mutual

/-- The node without the comments among the nodes below it. The texts of nodes stay as they are, with
the comments in them. -/
def bare : Node → Node
  | mk info children => mk info (bareAll children)

def bareAll : List Node → List Node
  | [] => []
  | child :: rest => if child.isComment then bareAll rest else child.bare :: bareAll rest

end

def namesOperand (children : List Node) : Bool :=
  (children.find? named).all fun child => !child.isComment

def operandFirst (kind : String) (children : List Node) : Bool :=
  (kind ≠ "parenthesized_expression" || namesOperand children) &&
    (kind ≠ "update_expression" ||
      namesOperand children && (children.take 2).all fun child => !child.isComment)

mutual

/-- At no node of an expression a comment stands in an operand's place, and comments have no role. -/
def isClear : Node → Bool
  | mk info children => operandFirst info.kind children && areClear children

def areClear : List Node → Bool
  | [] => true
  | child :: rest => (if child.isComment then child.field = "" else child.isClear) && areClear rest

end

variable {child : Node} {children rest : List Node} {field : String}

@[simp] theorem info_bare (node : Node) : node.bare.info = node.info := by
  cases node
  rfl

@[simp] theorem text_bare (node : Node) : node.bare.text = node.text := by
  rw [text, info_bare, text]

theorem bareAll_eq (children : List Node) :
    bareAll children = (children.filter fun child => !child.isComment).map bare := by
  induction children with
  | nil => rfl
  | cons child rest ih => cases comment : child.isComment <;> simp [bareAll, comment, ih]

theorem areClear_iff : areClear children = true ↔ ∀ child ∈ children,
    if child.isComment then child.field = "" else child.isClear = true := by
  induction children with
  | nil => simp [areClear]
  | cons child rest ih => cases comment : child.isComment <;> simp [areClear, comment, ih]

theorem clear_of_mem (clear : areClear children = true) (member : child ∈ children)
    (other : child.isComment = false) : child.isClear = true := by
  simpa [other] using areClear_iff.mp clear child member

theorem isComment_of_role (role : field ≠ "") (clear : areClear children = true)
    (member : child ∈ children) (same : child.field = field) : child.isComment = false := by
  have rule := areClear_iff.mp clear child member
  cases comment : child.isComment with
  | false => rfl
  | true =>
    rw [if_pos comment, same] at rule
    exact absurd rule role

theorem find?_bareAll (role : field ≠ "") (clear : areClear children = true) :
    (bareAll children).find? (fun child => child.field = field) =
      (children.find? fun child => child.field = field).map bare := by
  rw [bareAll_eq, List.find?_map, List.find?_filter]
  refine congrArg (Option.map bare) (List.find?_congr fun child member => ?_)
  have same : child.bare.field = child.field := by simp [Node.field]
  have other := isComment_of_role role clear member
  simpa [same] using other

theorem find?_named_bareAll (first : namesOperand children = true) :
    (bareAll children).find? named = (children.find? named).map bare := by
  induction children with
  | nil => rfl
  | cons child rest ih =>
    have same : child.bare.named = child.named := by simp [Node.named]
    cases isNamed : child.named with
    | true =>
      have other : child.isComment = false := by simpa [namesOperand, isNamed] using first
      simp [bareAll, other, same, isNamed]
    | false =>
      have later := ih (by simpa [namesOperand, isNamed] using first)
      cases comment : child.isComment <;> simp [bareAll, comment, same, isNamed, later]

section Found

variable {α : Type} {f : Node → α} (clear : areClear children = true)
  (each : ∀ child ∈ children, child.isClear = true → f child.bare = f child)

include clear each

theorem map_role (role : field ≠ "") :
    ((bareAll children).find? fun child => child.field = field).map f =
      (children.find? fun child => child.field = field).map f := by
  rw [find?_bareAll role clear, Option.map_map]
  refine Option.map_congr fun child found => ?_
  have member := List.mem_of_find?_eq_some found
  have same : child.field = field := by simpa using List.find?_some found
  exact each child member (clear_of_mem clear member (isComment_of_role role clear member same))

theorem map_first (first : namesOperand children = true) :
    ((bareAll children).find? named).map f = (children.find? named).map f := by
  rw [find?_named_bareAll first, Option.map_map]
  refine Option.map_congr fun child found => ?_
  have member := List.mem_of_find?_eq_some found
  exact each child member (clear_of_mem clear member (by simpa [namesOperand, found] using first))

end Found

theorem textOf_bareAll (info : NodeInfo) (role : field ≠ "") (clear : areClear children = true) :
    (mk info (bareAll children)).textOf field = (mk info children).textOf field := by
  have found := find?_bareAll role clear
  unfold textOf childIn child?
  rw [Node.children, Node.children, found]
  cases children.find? fun child => child.field = field with
  | none => rfl
  | some child => exact congrArg Except.ok (text_bare child)

end Node

namespace Lower

open Node

theorem updateOpOf_bareAll {children : List Node}
    (first : ((children.take 2).all fun child => !child.isComment) = true) :
    updateOpOf (bareAll children) = updateOpOf children := by
  cases children with
  | nil => rfl
  | cons child rest =>
    cases rest with
    | nil =>
      have other : child.isComment = false := by simpa using first
      simp [updateOpOf, Node.named, Node.text, bareAll, other]
    | cons next rest =>
      have other : child.isComment = false ∧ next.isComment = false := by simpa using first
      simp [updateOpOf, Node.named, Node.text, bareAll, other]

theorem items_bareAll {children : List Node}
    (each : ∀ child ∈ children, child.isComment = false → expr child.bare = expr child) :
    items (bareAll children) = items children := by
  induction children with
  | nil => rw [bareAll]
  | cons child rest ih =>
    obtain ⟨first, others⟩ := List.forall_mem_cons.mp each
    have same : child.bare.named = child.named ∧ child.bare.isComment = child.isComment := by
      simp [Node.named, isComment, Node.kind]
    cases comment : child.isComment with
    | true => simp [bareAll, items, comment, ih others]
    | false => simp [bareAll, items, comment, same, first comment, ih others]

section Children

variable {children : List Node} {field : String} (clear : areClear children = true)
  (each : ∀ child ∈ children, child.isClear = true →
    expr child.bare = expr child ∧ itemsOf child.bare = itemsOf child)

include clear each

theorem exprIn_bareAll (role : field ≠ "") :
    exprIn field (bareAll children) = exprIn field children := by
  rw [exprIn_eq, exprIn_eq,
    map_role clear (fun child member clear => (each child member clear).1) role]

theorem firstExpr_bareAll (first : namesOperand children = true) :
    firstExpr (bareAll children) = firstExpr children := by
  rw [firstExpr_eq, firstExpr_eq,
    map_first clear (fun child member clear => (each child member clear).1) first]

theorem itemsIn_bareAll (role : field ≠ "") :
    itemsIn field (bareAll children) = itemsIn field children := by
  rw [itemsIn_eq, itemsIn_eq,
    map_role clear (fun child member clear => (each child member clear).2) role]

end Children

theorem reading_bare (node : Node) (isClear : node.isClear = true) :
    expr node.bare = expr node ∧ itemsOf node.bare = itemsOf node := by
  induction node with
  | mk info children ih =>
    obtain ⟨first, clear⟩ := (Bool.and_eq_true _ _).mp isClear
    have all : items (bareAll children) = items children :=
      items_bareAll fun child member other => (ih child member (clear_of_mem clear member other)).1
    refine ⟨?_, all⟩
    have operand := firstExpr_bareAll clear ih
    have role (field : String) (role : field ≠ "") := exprIn_bareAll clear ih role
    have listed (field : String) (role : field ≠ "") := itemsIn_bareAll clear ih role
    have text (field : String) (role : field ≠ "") := textOf_bareAll info role clear
    have missing (field : String) :
        (Node.mk info (bareAll children)).missing field = (Node.mk info children).missing field := rfl
    simp only [operandFirst, Bool.and_eq_true, Bool.or_eq_true, decide_eq_true_eq] at first
    rw [bare, expr, expr]
    cases leaf? info with
    | some e => rfl
    | none =>
      dsimp only
      split
      next kind => rw [operand (first.1.resolve_left (by simp [kind]))]
      case h_4 kind =>
        obtain ⟨named, operator⟩ := first.2.resolve_left (by simp [kind])
        rw [operand named, updateOpOf_bareAll operator]
      all_goals
        simp only [role, text, listed, all, missing, ne_eq, String.reduceEq, not_false_eq_true]

variable {node : Node}

theorem print_bare (clear : node.isClear = true) :
    isPrintCall node.bare = isPrintCall node ∧ print node.bare = print node := by
  obtain ⟨info, children⟩ := node
  obtain ⟨-, clear⟩ := (Bool.and_eq_true _ _).mp clear
  have found (field : String) (role : field ≠ "") : (Node.mk info (bareAll children)).child? field =
      ((Node.mk info children).child? field).map bare := find?_bareAll role clear
  constructor
  · simp only [bare, isPrintCall, found "name" (by decide), found "object" (by decide),
      Option.any_map, text_bare]
    rfl
  · simp only [bare, print, textOf_bareAll info (show "name" ≠ "" by decide) clear,
      textOf_bareAll info (show "object" ≠ "" by decide) clear, Node.children,
      itemsIn_bareAll clear (fun child _ => reading_bare child) (show "arguments" ≠ "" by decide)]

theorem expr_comment (comment : node.isComment = true) :
    expr node = .error (.unsupported ("expression `" ++ node.kind ++ "`")) := by
  obtain ⟨info, children⟩ := node
  simp only [isComment, isCommentKind, Bool.or_eq_true, decide_eq_true_eq] at comment
  rw [expr]
  change (info.kind = _ ∨ info.kind = _) ∨ info.kind = _ at comment
  rcases comment with (kind | kind) | kind <;> simp [leaf?, kind, numberKinds, Node.kind, Node.info]

theorem statement_bare (clear : areClear node.children = true)
    (first : namesOperand node.children = true) :
    expressionStatement node.bare = expressionStatement node ∧
      returnStatement node.bare = returnStatement node := by
  obtain ⟨info, children⟩ := node
  change areClear children = true at clear
  change namesOperand children = true at first
  have named : ((bareAll children).filter Node.named).head? =
      (children.filter Node.named).head?.map bare := by
    rw [List.head?_filter, List.head?_filter, find?_named_bareAll first]
  constructor
  · unfold expressionStatement namedChildren
    rw [bare, Node.children, Node.children]
    cases kept : children.filter Node.named with
    | nil =>
      rw [kept] at named
      rw [List.head?_eq_none_iff.mp named]
    | cons child rest =>
      have found : children.find? Node.named = some child := by
        rw [← List.head?_filter, kept, List.head?_cons]
      have isClear : child.isClear = true :=
        clear_of_mem clear (List.mem_of_find?_eq_some found) (by simpa [namesOperand,
          found] using first)
      rw [kept] at named
      obtain ⟨others, whole⟩ := List.head?_eq_some_iff.mp named
      obtain ⟨isPrint, printed⟩ := print_bare isClear
      rw [whole]
      simp only [isPrint, printed, (reading_bare child isClear).1]
  · unfold returnStatement
    rw [bare, Node.children, Node.children,
      firstExpr_bareAll clear (fun child _ => reading_bare child) first]

theorem errs_of_comment_first (first : namesOperand node.children = false) :
    (node.kind = "parenthesized_expression" → ∃ error, expr node = .error error) ∧
      (∃ error, expressionStatement node = fail error) ∧
      ∃ error, returnStatement node = fail error := by
  obtain ⟨info, children⟩ := node
  obtain ⟨comment, found, remark⟩ : ∃ comment, children.find? Node.named = some comment ∧
      comment.isComment = true := by
    change ((children.find? Node.named).all fun child => !child.isComment) = false at first
    cases found : children.find? Node.named with
    | none => simp [found] at first
    | some comment => exact ⟨comment, rfl, by simpa [found] using first⟩
  have operand : firstExpr children = some (expr comment) := by
    rw [firstExpr_eq, found, Option.map_some]
  have noExpr := expr_comment remark
  generalize LoweringError.unsupported _ = error at noExpr
  refine ⟨fun kind => ⟨error, ?_⟩, ⟨error, ?_⟩, ⟨error, ?_⟩⟩
  · have kind : info.kind = "parenthesized_expression" := kind
    rw [expr, show leaf? info = none by simp [leaf?, kind, numberKinds]]
    simp only [kind, operand, noExpr]
  · have noCall : isPrintCall comment = false := by
      simp only [isComment, isCommentKind, Bool.or_eq_true, decide_eq_true_eq] at remark
      rcases remark with (kind | kind) | kind <;> simp [isPrintCall, kind]
    obtain ⟨others, whole⟩ := List.head?_eq_some_iff.mp (List.head?_filter.trans found)
    unfold expressionStatement namedChildren
    rw [Node.children, whole]
    simp only [noCall, noExpr]
    rfl
  · unfold returnStatement
    rw [Node.children, operand, noExpr]
    rfl

/-- Comments that stand in no operand's place change nothing: not the expression of a node, not the
condition or any other child in a role, and not an expression statement or a return. A comment that
is the first named child of a bracketed expression or of such a statement makes it fail. -/
theorem comments_ignored_unless_first (node : Node) :
    (node.isClear = true → expr node.bare = expr node) ∧
    (∀ field, field ≠ "" → areClear node.children = true →
      exprOf node.bare field = exprOf node field) ∧
    (areClear node.children = true → namesOperand node.children = true →
      expressionStatement node.bare = expressionStatement node ∧
        returnStatement node.bare = returnStatement node) ∧
    (namesOperand node.children = false →
      (node.kind = "parenthesized_expression" → ∃ error, expr node = .error error) ∧
        (∃ error, expressionStatement node = fail error) ∧
        ∃ error, returnStatement node = fail error) := by
  refine ⟨fun clear => (reading_bare node clear).1, fun field role clear => ?_, statement_bare,
    errs_of_comment_first⟩
  obtain ⟨info, children⟩ := node
  change areClear children = true at clear
  unfold exprOf
  rw [bare, Node.children, Node.children,
    exprIn_bareAll clear (fun child _ => reading_bare child) role]
  rfl

def Sample.inBrackets (before after : List Node) : Node :=
  Node.sample "parenthesized_expression" "" "" (before ++ Node.sample "identifier" "" "x" [] :: after)

/-- A comment behind the operand is ignored. -/
theorem comments_ignored_behind :
    let node := Sample.inBrackets [] [Node.sample "block_comment" "" "/* c */" []]
    node.isClear = true ∧ expr node.bare = expr node ∧ expr node = .ok (.ident "x") := by
  intro node
  have clear : node.isClear = true := by decide
  exact ⟨clear, (comments_ignored_unless_first node).1 clear, rfl⟩

/-- Of `(/* c */ x)` the comment is read, and there is no expression. -/
theorem comment_before_operand_read :
    let node := Sample.inBrackets [Node.sample "block_comment" "" "/* c */" []] []
    expr node.bare = .ok (.ident "x") ∧
      expr node = .error (.unsupported "expression `block_comment`") :=
  ⟨rfl, rfl⟩

end Lower

end Retarget
