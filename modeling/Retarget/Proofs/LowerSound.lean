import Retarget.Lower.Stmt
import Retarget.Proofs.PythonStmtOrderly

/-!
# What is read is sound

What is read off a syntax tree is no deeper than the tree, and its literals are numerals of the
tree.
-/

namespace Retarget

open Text (maxInteger)

namespace Node

mutual

/-- The number of nodes on the longest way down. -/
def height : Node → Nat
  | mk _ children => heightOf children + 1

def heightOf : List Node → Nat
  | [] => 0
  | node :: rest => max node.height (heightOf rest)

end

mutual

def nodes : Node → List Node
  | mk info children => mk info children :: nodesOf children

def nodesOf : List Node → List Node
  | [] => []
  | node :: rest => node.nodes ++ nodesOf rest

end

def isNumeral (node : Node) : Bool :=
  node.kind ∈ Lower.numberKinds

def numeral (node : Node) : Literal :=
  Lexeme.number node.kind node.text

theorem mem_nodesOf {node : Node} {children : List Node} :
    node ∈ nodesOf children ↔ ∃ child ∈ children, node ∈ child.nodes := by
  induction children with
  | nil => simp [nodesOf]
  | cons first rest ih => simp [nodesOf, ih]

theorem mem_nodes_of_child? {node child below : Node} {field : String}
    (found : node.child? field = some child) (member : below ∈ child.nodes) :
    below ∈ node.nodes := by
  obtain ⟨info, children⟩ := node
  exact List.mem_cons_of_mem _ (mem_nodesOf.mpr ⟨child, List.mem_of_find?_eq_some found, member⟩)

theorem mem_nodes_trans {inner below : Node} (member : below ∈ inner.nodes) (node : Node)
    (inside : inner ∈ node.nodes) : below ∈ node.nodes := by
  induction node with
  | mk info children ih =>
    rcases List.mem_cons.mp inside with rfl | deeper
    · exact member
    · obtain ⟨child, present, inside⟩ := mem_nodesOf.mp deeper
      exact List.mem_cons_of_mem _ (mem_nodesOf.mpr ⟨child, present, ih child present inside⟩)

theorem height_le_heightOf {child : Node} {children : List Node} (member : child ∈ children) :
    child.height ≤ heightOf children := by
  induction children with
  | nil => cases member
  | cons first rest ih =>
    rcases List.mem_cons.mp member with rfl | later
    · exact Nat.le_max_left _ _
    · exact Nat.le_trans (ih later) (Nat.le_max_right _ _)

end Node

open Node (nodesOf heightOf)

def Small (limit : Int) (nodes : List Node) : Prop :=
  ∀ node ∈ nodes, node.isNumeral = true → node.numeral.Within limit

theorem Small.mono {limit : Int} {nodes fewer : List Node} (small : Small limit nodes)
    (sub : fewer ⊆ nodes) : Small limit fewer :=
  fun node member => small node (sub member)

theorem Small.below {limit : Int} {node : Node} (small : Small limit node.nodes) :
    Small limit (nodesOf node.children) := by
  obtain ⟨info, children⟩ := node
  exact small.mono (List.subset_cons_self _ _)

theorem carries_getD {ε α : Type} {holds : α → Prop} {found : Option (Except ε α)}
    (each : ∀ result, found = some result → Carries result holds) {other : Except ε α}
    (otherwise : Carries other holds) : Carries (found.getD other) holds := by
  cases found with
  | none => exact otherwise
  | some result => exact each result rfl

theorem carries_found {ε α : Type} {holds : α → Prop} {children : List Node} {role : Node → Bool}
    {read : Node → Except ε α} {result : Except ε α}
    (found : (children.find? role).map read = some result)
    (each : ∀ child ∈ children, Carries (read child) holds) : Carries result holds := by
  obtain ⟨child, present, rfl⟩ := Option.map_eq_some_iff.mp found
  exact each child (List.mem_of_find?_eq_some present)

namespace Lower

variable {limit : Int}

/-- Only the literals of numerals have an integer. -/
theorem leaf?_cases {info : NodeInfo} {e : Expr} (found : leaf? info = some e) :
    (∃ value, e = .literal value ∧ value.integer? = none) ∨ (∃ name, e = .ident name) ∨
      info.kind ∈ numberKinds ∧ e = .literal (Lexeme.number info.kind info.text) := by
  unfold leaf? at found
  split at found
  case h_1 | h_2 | h_3 | h_4 | h_5 | h_6 => exact .inl ⟨_, (Option.some.inj found).symm, rfl⟩
  · exact .inr (.inl ⟨_, (Option.some.inj found).symm⟩)
  · split at found
    next isNumber => exact .inr (.inr ⟨isNumber, (Option.some.inj found).symm⟩)
    next => cases found

theorem leaf?_within {info : NodeInfo} {children : List Node} {e : Expr}
    (small : Small limit (Node.mk info children).nodes) (found : leaf? info = some e) :
    e.Within limit := by
  obtain ⟨value, rfl, none⟩ | ⟨name, rfl⟩ | ⟨isNumber, rfl⟩ := leaf?_cases found
  · intro n spelled
    rw [none] at spelled
    cases spelled
  · trivial
  · exact small (.mk info children) List.mem_cons_self (decide_eq_true isNumber)

theorem binaryOf_within (spelling : String) {left right : Expr} (leftWithin : left.Within limit)
    (rightWithin : right.Within limit) :
    Carries (binaryOf spelling left right) (·.Within limit) := by
  unfold binaryOf
  split
  · exact .ok ⟨leftWithin, rightWithin⟩
  · exact .ok ⟨leftWithin, rightWithin⟩
  · split
    · exact .ok ⟨leftWithin, rightWithin⟩
    · exact .ok ⟨leftWithin, rightWithin⟩
    · exact .error _

section Children

variable {children : List Node} (each : ∀ child ∈ children, Carries (expr child) (·.Within limit) ∧
  Carries (itemsOf child) (Expr.AllWithin limit))

include each

theorem exprIn_within {field : String} {result : Except LoweringError Expr}
    (found : exprIn field children = some result) : Carries result (·.Within limit) :=
  carries_found (exprIn_eq field children ▸ found) fun child member => (each child member).1

theorem firstExpr_within {result : Except LoweringError Expr}
    (found : firstExpr children = some result) : Carries result (·.Within limit) :=
  carries_found (firstExpr_eq children ▸ found) fun child member => (each child member).1

theorem itemsIn_within {field : String} {result : Except LoweringError (List Expr)}
    (found : itemsIn field children = some result) : Carries result (Expr.AllWithin limit) :=
  carries_found (itemsIn_eq field children ▸ found) fun child member => (each child member).2

theorem items_within : Carries (items children) (Expr.AllWithin limit) := by
  induction children with
  | nil => exact .ok trivial
  | cons child rest ih =>
    obtain ⟨first, others⟩ := List.forall_mem_cons.mp each
    rw [items]
    split
    · exact first.1.bind fun e within => (ih others).bind fun _ rest => .ok ⟨within, rest⟩
    · exact ih others

end Children

theorem reading_within (node : Node) (small : Small limit node.nodes) :
    Carries (expr node) (·.Within limit) ∧ Carries (itemsOf node) (Expr.AllWithin limit) := by
  induction node with
  | mk info children ih =>
    have each (child : Node) (member : child ∈ children) := ih child member
      (small.below.mono fun _ below => Node.mem_nodesOf.mpr ⟨child, member, below⟩)
    have all := items_within each
    refine ⟨?_, all⟩
    have operand (field : String) (error : LoweringError) :
        Carries ((exprIn field children).getD (.error error)) (·.Within limit) :=
      carries_getD (fun _ => exprIn_within each) (.error error)
    rw [expr]
    split
    next found => exact .ok (leaf?_within small found)
    next =>
      dsimp only
      split
      · split
        next found => exact firstExpr_within each found
        next => exact .error _
      · refine (operand _ _).bind fun left leftWithin => ?_
        refine (operand _ _).bind fun right rightWithin => ?_
        exact (Carries.trivial _).bind fun _ _ => binaryOf_within _ leftWithin rightWithin
      · refine (Carries.trivial _).bind fun spelling _ => ?_
        refine (operand _ _).bind fun inner within => ?_
        split
        · exact .ok within
        · exact .error _
      · refine (Carries.trivial _).bind fun op _ => ?_
        split
        next found => exact (firstExpr_within each found).bind fun inner within => .ok within
        next => exact .error _
      · refine (operand _ _).bind fun left leftWithin => ?_
        refine (operand _ _).bind fun right rightWithin => ?_
        refine (Carries.trivial _).bind fun spelling _ => ?_
        split
        · exact .ok ⟨leftWithin, rightWithin⟩
        · exact .error _
      · refine (operand _ _).bind fun condition conditionWithin => ?_
        refine (operand _ _).bind fun onTrue trueWithin => ?_
        refine (operand _ _).bind fun onFalse falseWithin => ?_
        exact .ok ⟨conditionWithin, trueWithin, falseWithin⟩
      · refine (Carries.trivial _).bind fun spelling _ => ?_
        exact (operand _ _).bind fun inner within => .ok within
      · refine (operand _ _).bind fun array arrayWithin => ?_
        exact (operand _ _).bind fun position within => .ok ⟨arrayWithin, within⟩
      · refine (operand _ _).bind fun object within => ?_
        exact (Carries.trivial _).bind fun field _ => .ok within
      · refine (Carries.trivial _).bind fun method _ => ?_
        have args : Carries ((itemsIn "arguments" children).getD (.ok [])) (Expr.AllWithin limit) :=
          carries_getD (fun _ => itemsIn_within each) (.ok trivial)
        split
        next found =>
          refine (exprIn_within each found).bind fun object within => ?_
          exact args.bind fun found rest => .ok ⟨within, rest⟩
        next => exact args.bind fun found within => .ok within
      · exact all.bind fun found within => .ok within
      · split
        next found => exact (itemsIn_within each found).bind fun items within => .ok within
        next => exact .error _
      · exact .error _

theorem expr_within (node : Node) (small : Small limit node.nodes) :
    Carries (expr node) (·.Within limit) :=
  (reading_within node small).1

theorem children_within {children : List Node} (small : Small limit (nodesOf children)) :
    ∀ child ∈ children, Carries (expr child) (·.Within limit) ∧
      Carries (itemsOf child) (Expr.AllWithin limit) :=
  fun child member => reading_within child
    (small.mono fun _ below => Node.mem_nodesOf.mpr ⟨child, member, below⟩)

theorem exprOf_within {node : Node} (field : String) (small : Small limit node.nodes) :
    Carries (exprOf node field) (·.Within limit) :=
  carries_getD (fun _ => exprIn_within (children_within small.below)) (.error _)

theorem extents_within {children : List Node} (small : Small limit (nodesOf children)) :
    Carries (extents children) fun found => ∀ e ∈ found, e.Within limit := by
  induction children with
  | nil => exact .ok nofun
  | cons child rest ih =>
    have later := ih (small.mono (List.subset_append_right _ _))
    rw [extents]
    split
    · have inside := Small.below (small.mono (List.subset_append_left _ _))
      refine (carries_getD (fun _ => firstExpr_within (children_within inside)) (.error _)).bind
        fun first within => later.bind fun others rest => .ok ?_
      intro e member
      rcases List.mem_cons.mp member with rfl | found
      · exact within
      · exact rest e found
    · exact later

def SoundPart (room : Nat) : Option Stmt → Prop
  | none => True
  | some stmt => stmt.Sound room

/-- Nodes up to a height that leaves them room. In a strict reading, their numerals are in range and
the bounds of their loops have a successor. -/
structure Fit (strict : Prop) (room : Nat) (nodes : List Node) (height : Nat) : Prop where
  small : strict → Small maxInteger nodes
  bounded : strict → ∀ node ∈ nodes, node.kind = "for_statement" → ∀ condition,
    node.child? "condition" = some condition → Small (maxInteger - 1) condition.nodes
  height : height ≤ room

abbrev Fits (strict : Prop) (room : Nat) (node : Node) : Prop :=
  Fit strict room node.nodes node.height

abbrev AllFit (strict : Prop) (room : Nat) (children : List Node) : Prop :=
  Fit strict room (nodesOf children) (heightOf children)

section Fit

variable {strict : Prop} {room : Nat} {info : NodeInfo} {child : Node} {children rest : List Node}

theorem Fit.loose (nodes : List Node) (height : Nat) : Fit False height nodes height :=
  ⟨False.elim, False.elim, Nat.le_refl height⟩

theorem Fit.within {nodes fewer : List Node} {height lower : Nat}
    (fit : Fit strict room nodes height) (sub : fewer ⊆ nodes) (less : lower ≤ height) :
    Fit strict room fewer lower :=
  ⟨fun must => (fit.small must).mono sub, fun must node member => fit.bounded must node (sub member),
    Nat.le_trans less fit.height⟩

theorem Fit.mem (fit : AllFit strict room children) (member : child ∈ children) :
    Fits strict room child :=
  fit.within (fun _ below => Node.mem_nodesOf.mpr ⟨_, member, below⟩) (Node.height_le_heightOf member)

theorem Fit.below (fit : Fits strict (room + 1) (.mk info children)) :
    AllFit strict room children :=
  { fit.within (List.subset_cons_self _ _) (Nat.le_refl _) with
    height := Nat.le_of_succ_le_succ fit.height }

/-- A tree has a node at least, so the trees below it have one level less. -/
theorem Fit.exists_room (fit : Fits strict room (.mk info children)) : ∃ inner, room = inner + 1 :=
  Nat.exists_eq_add_of_le' (Nat.le_trans (Nat.le_add_left 1 _) fit.height)

theorem Fit.positive (fit : Fits strict room child) : 1 ≤ room := by
  obtain ⟨info, children⟩ := child
  obtain ⟨inner, rfl⟩ := fit.exists_room
  exact Nat.le_add_left 1 inner

theorem Fit.condition (fit : Fits strict room (.mk info children))
    (loop : info.kind = "for_statement") {condition : Node}
    (found : (Node.mk info children).child? "condition" = some condition) (must : strict) :
    Carries (expr condition) Expr.Bounding := by
  have small : Small maxInteger condition.nodes :=
    (fit.small must).mono fun _ => Node.mem_nodes_of_child? found
  have bounded := fit.bounded must _ List.mem_cons_self loop condition found
  exact fun e read => ⟨expr_within condition small e read, expr_within condition bounded e read⟩

theorem Fit.wider (fit : AllFit strict room children) : AllFit strict (room + 1) children :=
  { fit with height := Nat.le_succ_of_le fit.height }

end Fit

section Parts

variable {room : Nat}

theorem allSound_append {first second : List Stmt} :
    AllSound room (first ++ second) ↔ AllSound room first ∧ AllSound room second := by
  simp only [allSound_iff, List.forall_mem_append]

theorem SoundPart.toList {part : Option Stmt} (sound : SoundPart room part) :
    AllSound room part.toList := by
  cases part with
  | none => trivial
  | some stmt => exact ⟨sound, trivial⟩

theorem tameLabels_append {first second : List SwitchLabel} :
    TameLabels (first ++ second) ↔ TameLabels first ∧ TameLabels second := by
  simp only [TameLabels, List.filterMap_append, List.forall_mem_append]

theorem labelValues_tame {children : List Node} (small : Small maxInteger (nodesOf children)) :
    Carries (labelValues children) TameLabels := by
  induction children with
  | nil => exact .ok nofun
  | cons child rest ih =>
    have later := ih (small.mono (List.subset_append_right _ _))
    rw [labelValues]
    split
    · exact later
    · split
      · exact .error _
      · split
        · exact later
        · have first := expr_within child (small.mono (List.subset_append_left _ _))
          refine first.bind fun e within => later.bind fun others tame => .ok ?_
          intro label member
          rcases List.mem_cons.mp member with rfl | found
          · exact within
          · exact tame label found

theorem labelsOf_tame {node : Node} (small : Small maxInteger node.nodes) :
    Carries (labelsOf node) TameLabels := by
  unfold labelsOf
  split
  · exact .ok nofun
  · exact labelValues_tame small.below

/-- The cases read so far are sound, and so is what waits for the next one. -/
structure CaseList.Sound (room : Nat) (list : CaseList) : Prop where
  cases : SoundCases room list.cases
  labels : TameLabels list.labels
  body : AllSound room list.body

theorem soundCases_append {first second : List Case} :
    SoundCases room (first ++ second) ↔ SoundCases room first ∧ SoundCases room second := by
  induction first with
  | nil => simp [SoundCases]
  | cons case rest ih =>
    obtain ⟨labels, body⟩ := case
    simp [SoundCases, ih, and_assoc]

namespace CaseList.Sound

variable {list : CaseList} {labels : List SwitchLabel} {body : List Stmt}

theorem addGroup (sound : list.Sound room) (tame : TameLabels labels)
    (bodySound : AllSound room body) : (list.addGroup labels body).Sound room := by
  have allTame := tameLabels_append.mpr ⟨sound.labels, tame⟩
  have whole := allSound_append.mpr ⟨sound.body, bodySound⟩
  unfold CaseList.addGroup
  dsimp only
  split
  · exact ⟨sound.cases, allTame, whole⟩
  · exact ⟨soundCases_append.mpr ⟨sound.cases, allTame, whole, trivial⟩, nofun, trivial⟩

theorem addRule (sound : list.Sound room) (tame : TameLabels labels)
    (bodySound : AllSound room body) : (list.addRule labels body).Sound room := by
  have closed : AllSound room (closed body) := by
    unfold Lower.closed
    split
    · exact bodySound
    · exact allSound_append.mpr ⟨bodySound, trivial, trivial⟩
  exact ⟨soundCases_append.mpr ⟨sound.cases, tame, closed, trivial⟩, sound.labels, sound.body⟩

theorem appendToLast {cases : List Case} (sound : SoundCases room cases) {stmt : Stmt}
    (stmtSound : stmt.Sound room) : SoundCases room (CaseList.appendToLast cases stmt) := by
  unfold CaseList.appendToLast
  split
  next labels body last =>
    obtain ⟨before, rfl⟩ := List.getLast?_eq_some_iff.mp last
    obtain ⟨earlier, tame, bodySound, -⟩ := soundCases_append.mp sound
    rw [List.dropLast_concat]
    exact soundCases_append.mpr
      ⟨earlier, tame, allSound_append.mpr ⟨bodySound, stmtSound, trivial⟩, trivial⟩
  next => exact sound

theorem addComment (sound : list.Sound room) {stmt : Stmt} (stmtSound : stmt.Sound room) :
    (list.addComment stmt).Sound room := by
  unfold CaseList.addComment
  split
  · exact ⟨appendToLast sound.cases stmtSound, sound.labels, sound.body⟩
  · exact ⟨sound.cases, sound.labels, allSound_append.mpr ⟨sound.body, stmtSound, trivial⟩⟩

theorem finish (sound : list.Sound room) : SoundCases room list.finish := by
  unfold CaseList.finish
  split
  · exact sound.cases
  · exact soundCases_append.mpr ⟨sound.cases, sound.labels, sound.body, trivial⟩

end CaseList.Sound

end Parts

end Lower

end Retarget
