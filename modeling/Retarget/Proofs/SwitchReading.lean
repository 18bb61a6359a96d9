import Retarget.Proofs.SwitchFlow

/-!
# The switch that is read off a syntax tree

What stands in the body of a switch is told from its syntax tree: the labels of a group or rule need
no context, and its statements are read like those of a block, all in one scope.
-/

namespace Retarget

open Render (bind_eq_ok run_bind run_inScope)
open SwitchItem (group? rule?)

variable {child : Node} {labels : List SwitchLabel} {children : List Node}

def Lower.Reads {α : Type} (reading : Lower α) (source : Render α) : Prop :=
  ∀ cx, reading.run.run cx = (source.run cx).map fun reached => (.ok reached.1, reached.2)

namespace Lower.Reads

variable {α β : Type} {reading : Lower α} {source other : Render α}

theorem pure (value : α) : Reads (Pure.pure value) (Pure.pure value) :=
  fun _ => rfl

theorem lift (source : Render α) : Reads (liftM source) source := by
  intro cx
  change (source >>= fun value => .done (Except.ok value : Except LoweringError α)).run cx = _
  rw [run_bind]
  cases source.run cx <;> rfl

theorem bind {next : α → Lower β} {after : α → Render β} (reads : Reads reading source)
    (later : ∀ value, Reads (next value) (after value)) :
    Reads (reading >>= next) (source >>= after) := by
  intro cx
  rw [ExceptT.run_bind, run_bind, run_bind, reads cx]
  cases source.run cx with
  | error fault => rfl
  | ok reached => exact later reached.1 reached.2

theorem ofOk (value : α) : Reads (.ofExcept (.ok value)) (Pure.pure value) :=
  fun _ => rfl

theorem congr (reads : Reads reading source) (same : source = other) : Reads reading other :=
  same ▸ reads

theorem inScope (reads : Reads reading source) : Reads (.inScope reading) source.inScope := by
  intro cx
  change (Render.inScope reading.run).run cx = _
  rw [run_inScope, run_inScope, reads cx.pushScope]
  cases source.run cx.pushScope <;> rfl

end Lower.Reads

namespace Lower

def isLabelNode (child : Node) : Bool :=
  child.named && child.kind = "switch_label"

def isBodyNode (child : Node) : Bool :=
  child.named && child.kind ≠ "switch_label"

def labelsIn (children : List Node) : Except LoweringError (List SwitchLabel) :=
  List.flatten <$> (children.filter isLabelNode).mapM labelsOf

/-- The statements that a part of a rule makes up, in a scope of their own. -/
def partBody (part : Node) : Render (List Stmt) :=
  Render.inScope do
    if part.kind = "block" then blockOf part
    else return (← kept part.info (statement part)).toList

def ruleBody (body : List Stmt) (children : List Node) : Render (List Stmt) :=
  (children.filter isBodyNode).foldlM (fun body part =>
    if part.isComment then return body ++ [commentOf part.info] else partBody part) body

/-- A child of a group or rule: it is passed over, it adds its labels, or it belongs to the body. -/
theorem labelsIn_cons_cases {rest : List Node} (lowered : labelsIn (child :: rest) = .ok labels) :
    (child.named = false ∧ labelsIn rest = .ok labels ∧ isBodyNode child = false) ∨
    (child.named = true ∧ child.kind = "switch_label" ∧ isBodyNode child = false ∧
      ∃ first others, labelsOf child = .ok first ∧ labelsIn rest = .ok others ∧
        labels = first ++ others) ∨
    (child.named = true ∧ child.kind ≠ "switch_label" ∧ isBodyNode child = true ∧
      labelsIn rest = .ok labels) := by
  rw [labelsIn, List.filter_cons] at lowered
  cases named : child.named with
  | false =>
    refine .inl ⟨rfl, ?_, by simp [isBodyNode, named]⟩
    simpa [labelsIn, isLabelNode, named] using lowered
  | true =>
    by_cases label : child.kind = "switch_label"
    · refine .inr (.inl ⟨rfl, label, by simp [isBodyNode, label], ?_⟩)
      rw [if_pos (by simp [isLabelNode, named, label]), List.mapM_cons] at lowered
      rw [labelsIn]
      cases found : labelsOf child with
      | error error =>
        rw [found] at lowered
        cases lowered
      | ok first =>
        rw [found] at lowered
        cases more : (rest.filter isLabelNode).mapM labelsOf with
        | error error =>
          rw [more] at lowered
          cases lowered
        | ok others =>
          rw [more] at lowered
          cases lowered
          exact ⟨first, others.flatten, rfl, rfl, rfl⟩
    · refine .inr (.inr ⟨rfl, label, by simp [isBodyNode, named, label], ?_⟩)
      simpa [labelsIn, isLabelNode, label] using lowered

theorem groupParts_reads (lowered : labelsIn children = .ok labels) :
    Reads (groupParts children) do return (labels, ← block (children.filter isBodyNode)) := by
  induction children generalizing labels with
  | nil =>
    cases lowered
    exact .pure _
  | cons child rest ih =>
    rw [groupParts, List.filter_cons]
    rcases labelsIn_cons_cases lowered with ⟨unnamed, below, notBody⟩ |
      ⟨named, label, notBody, first, others, found, below, rfl⟩ | ⟨named, other, isBody, below⟩
    · rw [notBody, if_pos (by simp [unnamed]), if_neg Bool.false_ne_true]
      exact ih below
    · rw [notBody, if_neg (by simp [named]), if_pos label, found, if_neg Bool.false_ne_true]
      have step : Reads _ (pure first >>= fun first =>
          (do return (others, ← block (rest.filter isBodyNode))) >>= fun parts =>
            pure (first ++ parts.1, parts.2)) :=
        (Reads.ofOk first).bind fun first => (ih below).bind fun parts => .pure _
      exact step.congr (by simp)
    · rw [isBody, if_neg (by simp [named]), if_neg other, if_pos rfl]
      have step : Reads _ (kept child.info (statement child) >>= fun first =>
          (do return (labels, ← block (rest.filter isBodyNode))) >>= fun parts =>
            pure (parts.1, first.toList ++ parts.2)) :=
        (Reads.lift (kept child.info (statement child))).bind fun first =>
          (ih below).bind fun parts => .pure _
      exact step.congr (by simp [block, named])

theorem bodyOf_reads (part : Node) :
    Reads (bodyOf part.info (fun _ => statement part) fun _ => blockOf part) (partBody part) := by
  refine .inScope ?_
  by_cases isBlock : part.kind = "block"
  · rw [if_pos isBlock, if_pos (show part.info.kind = "block" from isBlock)]
    exact .lift (blockOf part)
  · rw [if_neg isBlock, if_neg (show part.info.kind ≠ "block" from isBlock)]
    exact (Reads.lift (kept part.info (statement part))).bind fun stmt => .pure _

theorem ruleParts_reads (lowered : labelsIn children = .ok labels) (before : List SwitchLabel)
    (body : List Stmt) : Reads (ruleParts before body children) do
      return (before ++ labels, ← ruleBody body children) := by
  induction children generalizing labels before body with
  | nil =>
    cases lowered
    simpa [ruleParts, ruleBody] using Reads.pure (before, body)
  | cons child rest ih =>
    rw [ruleParts, ruleBody, List.filter_cons]
    rcases labelsIn_cons_cases lowered with ⟨unnamed, below, notBody⟩ |
      ⟨named, label, notBody, first, others, found, below, rfl⟩ | ⟨named, other, isBody, below⟩
    · rw [notBody, if_pos (by simp [unnamed]), if_neg Bool.false_ne_true]
      exact ih below before body
    · rw [notBody, if_neg (by simp [named]), if_pos label, found, if_neg Bool.false_ne_true]
      have step := (Reads.ofOk first).bind fun more => ih below (before ++ more) body
      exact step.congr (by simp [ruleBody])
    · rw [isBody, if_neg (by simp [named]), if_neg other, if_pos rfl, List.foldlM_cons]
      split
      · exact (ih below before _).congr (by simp [ruleBody])
      · have step := (bodyOf_reads child).bind fun body => ih below before body
        exact step.congr (by simp [ruleBody])

def labelsWithin (child : Node) : List SwitchLabel :=
  (labelsIn child.children).toOption.getD []

def sourceItem (child : Node) : Render SwitchItem :=
  if child.kind = "switch_block_statement_group" then do
    return .group (.mk (labelsWithin child) (← block (child.children.filter isBodyNode)))
  else if child.kind = "switch_rule" then do
    return .rule (.mk (labelsWithin child) (← ruleBody [] child.children))
  else return .comment (Lexeme.comment child.info.text)

def sourceItems (children : List Node) : Render (List SwitchItem) :=
  (children.filter Node.named).mapM sourceItem

def isGroupNode (child : Node) : Bool :=
  child.named && child.kind = "switch_block_statement_group"

def isRuleNode (child : Node) : Bool :=
  child.named && child.kind = "switch_rule"

/-- Whether a child of the body of a switch is a group or rule whose labels can be read, a comment,
or a mere token. -/
def isItemNode (child : Node) : Bool :=
  (isGroupNode child || isRuleNode child) && (labelsIn child.children).isOk || child.isComment ||
    !child.named

theorem isItemNode_cases (item : isItemNode child = true) (named : child.named = true) :
    ((child.kind = "switch_block_statement_group" ∨ child.kind = "switch_rule") ∧
      ∃ labels, labelsIn child.children = .ok labels) ∨ child.isComment = true := by
  simp only [isItemNode, isGroupNode, isRuleNode, named, Bool.true_and, Bool.not_true,
    Bool.or_false, Bool.or_eq_true, Bool.and_eq_true, decide_eq_true_eq] at item
  refine item.imp_left fun ⟨kind, lowered⟩ => ⟨kind, ?_⟩
  cases found : labelsIn child.children with
  | error error =>
    rw [found] at lowered
    cases lowered
  | ok labels => exact ⟨labels, rfl⟩

theorem groupOf_reads (lowered : labelsIn child.children = .ok labels) :
    Reads (groupOf child) do return (labels, ← block (child.children.filter isBodyNode)) := by
  obtain ⟨info, children⟩ := child
  exact groupParts_reads lowered

theorem ruleOf_reads (lowered : labelsIn child.children = .ok labels) :
    Reads (ruleOf child) do return (labels, ← ruleBody [] child.children) := by
  obtain ⟨info, children⟩ := child
  exact ruleParts_reads lowered [] []

theorem kind_ne_of_isComment (comment : child.isComment = true) :
    child.kind ≠ "switch_block_statement_group" ∧ child.kind ≠ "switch_rule" := by
  constructor <;> intro same <;> rw [Node.isComment, same] at comment <;>
    exact absurd comment (by decide)

theorem cases_reads (items : ∀ child ∈ children, isItemNode child = true) (list : CaseList) :
    Reads (cases list children) do return (← sourceItems children).foldl .add list := by
  induction children generalizing list with
  | nil => exact .pure list
  | cons child rest ih =>
    rw [List.forall_mem_cons] at items
    rw [cases, sourceItems, List.filter_cons]
    cases named : child.named with
    | false => exact ih items.2 list
    | true =>
      rw [if_neg (by simp), if_pos rfl, List.mapM_cons]
      rcases isItemNode_cases items.1 named with ⟨group | rule, labels, lowered⟩ | comment
      · rw [if_pos group]
        have step := (groupOf_reads lowered).bind fun parts =>
          ih items.2 (list.addGroup parts.1 parts.2)
        refine step.congr ?_
        simp [sourceItem, group, labelsWithin, lowered, sourceItems, CaseList.add, Case.labels,
          Case.body, Except.toOption]
      · have notGroup : child.kind ≠ "switch_block_statement_group" := by
          rw [rule]
          decide
        rw [if_neg notGroup, if_pos rule]
        have step := (ruleOf_reads lowered).bind fun parts =>
          ih items.2 (list.addRule parts.1 parts.2)
        refine step.congr ?_
        simp [sourceItem, rule, labelsWithin, lowered, sourceItems, CaseList.add, Case.labels,
          Case.body, Except.toOption]
      · have other := kind_ne_of_isComment comment
        rw [if_neg other.1, if_neg other.2, if_pos comment]
        refine (ih items.2 _).congr ?_
        simp [sourceItem, other, sourceItems, CaseList.add, commentOf]

theorem casesOf_reads (info : NodeInfo) (items : ∀ child ∈ children, isItemNode child = true) :
    Reads (casesOf (.mk info children))
      (Render.inScope do return gathered (← sourceItems children)) := by
  refine .inScope ?_
  have step := (cases_reads items {}).bind fun list => .pure list.finish
  exact step.congr (by simp [gathered])

theorem sourceItems_labels {cx after : Context} {items : List SwitchItem}
    (read : (sourceItems children).run cx = .ok (items, after)) :
    (items.filterMap group?).map Case.labels =
        (children.filter isGroupNode).map labelsWithin ∧
      (items.filterMap rule?).map Case.labels =
        (children.filter isRuleNode).map labelsWithin := by
  induction children generalizing cx items with
  | nil =>
    cases read
    exact ⟨rfl, rfl⟩
  | cons child rest ih =>
    rw [sourceItems, List.filter_cons] at read
    cases named : child.named with
    | false =>
      rw [named, if_neg Bool.false_ne_true] at read
      simpa [isGroupNode, isRuleNode, named] using ih read
    | true =>
      rw [named, if_pos rfl, List.mapM_cons] at read
      obtain ⟨item, between, first, read⟩ := bind_eq_ok.mp read
      obtain ⟨others, later, below, read⟩ := bind_eq_ok.mp read
      cases read
      have whole := ih below
      rw [sourceItem] at first
      split at first
      next group =>
        obtain ⟨_, _, _, first⟩ := bind_eq_ok.mp first
        cases first
        simp [isGroupNode, isRuleNode, named, group, whole, group?,
          rule?, List.filterMap_cons, Case.labels]
      next other =>
        split at first
        next rule =>
          obtain ⟨_, _, _, first⟩ := bind_eq_ok.mp first
          cases first
          simp [isGroupNode, isRuleNode, named, rule, whole, group?,
            rule?, List.filterMap_cons, Case.labels]
        next neither =>
          cases first
          simp [isGroupNode, isRuleNode, other, neither, whole, group?,
            rule?, List.filterMap_cons]

end Lower

open Lower in
/-- The body of a switch that holds groups, rules and comments, with labels that can be read, is
read unless reading one of its statements stops with a fault. Groups are conserved: the cases have
their labels and their code in the same order, each case but perhaps the last has code, and from
each label the same code is run. Each rule makes up a case with its own labels, whose code ends with
a jump, so that what is run from a label is the code of its own case. A comment behind a rule stands
after the jump, and only then does the body of the case not end with it. -/
theorem switch_cases_conserved (info : NodeInfo) (children : List Node) (cx : Context)
    (items : ∀ child ∈ children, isItemNode child = true) :
    (∀ fault, (sourceItems children).run cx.pushScope = .error fault →
      (casesOf (.mk info children)).run.run cx = .error fault) ∧
    ∀ read after, (sourceItems children).run cx.pushScope = .ok (read, after) →
      ∃ cases, (casesOf (.mk info children)).run.run cx = .ok (.ok cases, after.popScope) ∧
        ((∀ child ∈ children, isRuleNode child = false) →
          cases.flatMap Case.labels = (children.filter isGroupNode).flatMap labelsWithin ∧
          Conserved (read.filterMap group?) cases) ∧
        ((∀ child ∈ children, isGroupNode child = false) →
          cases.map Case.labels = (children.filter isRuleNode).map labelsWithin ∧
          Ruled read cases) := by
  have reads := casesOf_reads info items cx
  rw [run_inScope, run_bind] at reads
  refine ⟨fun fault fails => ?_, fun read after ends => ?_⟩
  · rw [reads, fails]
    rfl
  · obtain ⟨groupLabels, ruleLabels⟩ := sourceItems_labels ends
    refine ⟨gathered read, ?_, fun noRules => ?_, fun noGroups => ?_⟩
    · rw [reads, ends]
      rfl
    · have none : children.filter isRuleNode = [] := by simpa using noRules
      rw [none, List.map_nil, List.map_eq_nil_iff, List.filterMap_eq_nil_iff] at ruleLabels
      have conserved := gathered_conserved read ruleLabels
      refine ⟨?_, conserved⟩
      rw [conserved.labels, List.flatMap_def, groupLabels, ← List.flatMap_def]
    · have none : children.filter isGroupNode = [] := by simpa using noGroups
      rw [none, List.map_nil, List.map_eq_nil_iff, List.filterMap_eq_nil_iff] at groupLabels
      have whole := gathered_ruled read groupLabels
      exact ⟨whole.labels.trans ruleLabels, whole⟩

open Lower in
/-- Two groups share a body across a comment, and a last group has none; a comment stands behind
each of two rules. -/
theorem switch_cases_conserved_shared :
    let part := Node.sample
    let label (digit : String) : Node :=
      part "switch_label" "" ("case " ++ digit) [part "decimal_integer_literal" "" digit []]
    let declaration : Node := part "local_variable_declaration" "" "int a;" [
      part "integral_type" "type" "int" [],
      part "variable_declarator" "declarator" "a" [part "identifier" "name" "a" []]]
    let leave : Node := part "break_statement" "" "break;" []
    let comment : Node := part "line_comment" "" "// weekend" []
    let body : Node := part "switch_block" "body" "" [
      part "switch_block_statement_group" "" "" [label "1"], comment,
      part "switch_block_statement_group" "" "" [label "7", declaration, leave],
      part "switch_block_statement_group" "" "" [label "3"]]
    let ruled : Node := part "switch_block" "body" "" [
      part "switch_rule" "" "" [label "1", part "block" "" "" [declaration]], comment,
      part "switch_rule" "" "" [label "2", leave], comment]
    let cx : Context := { target := .python }
    (∃ read after cases, (sourceItems body.children).run cx.pushScope = .ok (read, after) ∧
      (casesOf body).run.run cx = .ok (.ok cases, after.popScope) ∧ cases.length = 2 ∧
      Conserved (read.filterMap group?) cases) ∧
    ∃ read after cases, (sourceItems ruled.children).run cx.pushScope = .ok (read, after) ∧
      (casesOf ruled).run.run cx = .ok (.ok cases, after.popScope) ∧ cases.length = 2 ∧
      Ruled read cases := by
  intro part label declaration leave comment body ruled cx
  have facts : (∀ node ∈ [body, ruled], (∀ child ∈ node.children, isItemNode child = true) ∧
      (∃ read after, (sourceItems node.children).run cx.pushScope = .ok (read, after) ∧ True) ∧
      ∃ result after, (casesOf node).run.run cx = .ok (result, after) ∧
        result.toOption.map List.length = some 2) ∧
      (∀ child ∈ body.children, isRuleNode child = false) ∧
      ∀ child ∈ ruled.children, isGroupNode child = false := by decide +kernel
  obtain ⟨nodes, noRules, noGroups⟩ := facts
  constructor
  · obtain ⟨items, ⟨read, after, ends, -⟩, result, later, runs, two⟩ := nodes body (by simp)
    obtain ⟨cases, conserves, groups, -⟩ :=
      (switch_cases_conserved body.info body.children cx items).2 read after ends
    cases runs.symm.trans conserves
    exact ⟨read, after, cases, ends, conserves, Option.some.inj two, (groups noRules).2⟩
  · obtain ⟨items, ⟨read, after, ends, -⟩, result, later, runs, two⟩ := nodes ruled (by simp)
    obtain ⟨cases, conserves, -, rules⟩ :=
      (switch_cases_conserved ruled.info ruled.children cx items).2 read after ends
    cases runs.symm.trans conserves
    exact ⟨read, after, cases, ends, conserves, Option.some.inj two, (rules noGroups).2⟩

open Lower in
/-- In `case 1 -> { int a; }` with a comment behind it, the body of the case ends with the comment,
after its jump. -/
theorem rule_comment_after_jump :
    let part := Node.sample
    let label (digit : String) : Node :=
      part "switch_label" "" ("case " ++ digit) [part "decimal_integer_literal" "" digit []]
    let declaration : Node := part "local_variable_declaration" "" "int a;" [
      part "integral_type" "type" "int" [],
      part "variable_declarator" "declarator" "a" [part "identifier" "name" "a" []]]
    let comment : Node := part "line_comment" "" "// first" []
    let ruled : Node := part "switch_block" "body" "" [
      part "switch_rule" "" "" [label "1", part "block" "" "" [declaration]], comment,
      part "switch_rule" "" "" [label "2", part "block" "" "" [declaration]]]
    ∃ result after, (casesOf ruled).run.run { target := .python } = .ok (result, after) ∧
      result.toOption.map (List.map fun case => endsWithJump case.body) = some [false, true] := by
  decide +kernel

end Retarget
