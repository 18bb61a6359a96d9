import Retarget.Lower.Stmt
import Retarget.Proofs.SwitchMeaning

/-!
# How the cases of a switch are gathered

The groups of a switch are gathered into cases one after the other. A group without code waits for
the next one and shares its body; a comment stays with what waits or with the case before.
-/

namespace Retarget

open Lower (isCommentStmt closed CaseList)

def code (body : List Stmt) : List Stmt :=
  body.filter fun s => !isCommentStmt s

def codeOf (cases : List Case) : List Stmt :=
  code (cases.flatMap Case.body)

/-- Each label in order with the code that is run from it, if `after` stands behind the cases: the
code from its case on, up to the first jump. -/
def flowInto (after : List Stmt) : List Case → List (SwitchLabel × List Stmt)
  | [] => []
  | case :: rest =>
    case.labels.map (·, untilJump (codeOf (case :: rest) ++ after)) ++ flowInto after rest

@[simp] theorem code_nil : code [] = [] := rfl

@[simp] theorem code_append (first second : List Stmt) :
    code (first ++ second) = code first ++ code second :=
  List.filter_append ..

@[simp] theorem code_comment (comment : Comment) : code [.comment comment] = [] := rfl

theorem code_eq_nil_iff {body : List Stmt} : code body = [] ↔ body.all isCommentStmt = true := by
  simp [code]

@[simp] theorem codeOf_nil : codeOf [] = [] := rfl

@[simp] theorem codeOf_cons (case : Case) (rest : List Case) :
    codeOf (case :: rest) = code case.body ++ codeOf rest := by simp [codeOf]

@[simp] theorem codeOf_append (first second : List Case) :
    codeOf (first ++ second) = codeOf first ++ codeOf second := by simp [codeOf]

theorem flowInto_append (after : List Stmt) (first second : List Case) :
    flowInto after (first ++ second) =
      flowInto (codeOf second ++ after) first ++ flowInto after second := by
  induction first with
  | nil => rfl
  | cons case rest ih =>
    rw [List.cons_append, flowInto, flowInto, ih]
    simp [List.append_assoc]

theorem map_fst_flowInto (after : List Stmt) (cases : List Case) :
    (flowInto after cases).map Prod.fst = cases.flatMap Case.labels := by
  induction cases with
  | nil => rfl
  | cons case rest ih =>
    rw [flowInto, List.map_append, ih, List.map_map, List.flatMap_cons]
    congr 1
    exact List.map_id _

/-- Two lists of cases hold the same code and have the same labels, and from each label the same
code is run, whatever stands behind them. -/
structure SameFlow (first second : List Case) : Prop where
  code : codeOf first = codeOf second
  flow : ∀ after, flowInto after first = flowInto after second

namespace SameFlow

theorem refl (cases : List Case) : SameFlow cases cases :=
  ⟨rfl, fun _ => rfl⟩

theorem symm {first second : List Case} (same : SameFlow first second) : SameFlow second first :=
  ⟨same.code.symm, fun after => (same.flow after).symm⟩

theorem trans {first second third : List Case} (same : SameFlow first second)
    (next : SameFlow second third) : SameFlow first third :=
  ⟨same.code.trans next.code, fun after => (same.flow after).trans (next.flow after)⟩

theorem append {first second more others : List Case} (same : SameFlow first second)
    (next : SameFlow more others) : SameFlow (first ++ more) (second ++ others) where
  code := by rw [codeOf_append, codeOf_append, same.code, next.code]
  flow after := by rw [flowInto_append, flowInto_append, same.flow, next.code, next.flow]

theorem body {labels : List SwitchLabel} {body other : List Stmt}
    (same : Retarget.code body = Retarget.code other) :
    SameFlow [.mk labels body] [.mk labels other] where
  code := by simp [Case.body, same]
  flow after := by simp [flowInto, Case.body, Case.labels, same]

theorem shared {labels more : List SwitchLabel} {body : List Stmt}
    (silent : Retarget.code body = []) (other : List Stmt) :
    SameFlow [.mk labels body, .mk more other] [.mk (labels ++ more) (body ++ other)] where
  code := by simp [Case.body]
  flow after := by simp [flowInto, Case.body, Case.labels, silent]

theorem blank {body : List Stmt} (silent : Retarget.code body = []) :
    SameFlow [.mk [] body] [] where
  code := by simp [Case.body, silent]
  flow after := by simp [flowInto, Case.labels]

end SameFlow

inductive SwitchItem where
  | group (case : Case)
  | rule (case : Case)
  | comment (comment : Comment)

namespace SwitchItem

def group? : SwitchItem → Option Case
  | group case => some case
  | _ => none

def rule? : SwitchItem → Option Case
  | rule case => some case
  | _ => none

end SwitchItem

def Lower.CaseList.add (list : CaseList) : SwitchItem → CaseList
  | .group case => list.addGroup case.labels case.body
  | .rule case => list.addRule case.labels case.body
  | .comment comment => list.addComment (.comment comment)

def gathered (items : List SwitchItem) : List Case :=
  (items.foldl CaseList.add {}).finish

theorem appendToLast_sameFlow (cases : List Case) (comment : Comment) :
    SameFlow (CaseList.appendToLast cases (.comment comment)) cases := by
  unfold CaseList.appendToLast
  split
  next labels body last =>
    obtain ⟨before, rfl⟩ := List.getLast?_eq_some_iff.mp last
    rw [List.dropLast_concat]
    exact .append (.refl before) (.body (by simp))
  next => exact .refl cases

theorem forall_mem_appendToLast {holds : Case → Prop} {cases : List Case} {comment : Comment}
    (all : ∀ case ∈ cases, holds case)
    (step : ∀ labels body, Case.mk labels body ∈ cases →
      holds (.mk labels (body ++ [.comment comment]))) :
    ∀ case ∈ CaseList.appendToLast cases (.comment comment), holds case := by
  unfold CaseList.appendToLast
  split
  next labels body last =>
    obtain ⟨before, rfl⟩ := List.getLast?_eq_some_iff.mp last
    rw [List.dropLast_concat]
    intro case member
    rcases List.mem_append.mp member with earlier | final
    · exact all case (List.mem_append_left _ earlier)
    · rw [List.mem_singleton.mp final]
      exact step labels body (by simp)
  next => exact all

section Groups

/-- The groups read so far are in the list: in its cases, and in what waits for code. -/
structure Gathers (groups : List Case) (list : CaseList) : Prop where
  flow : SameFlow groups (list.cases ++ [.mk list.labels list.body])
  waiting : code list.body = []
  filled : ∀ case ∈ list.cases, code case.body ≠ []

namespace Gathers

variable {groups : List Case} {list : CaseList}

theorem empty : Gathers [] {} where
  flow := (SameFlow.blank rfl).symm
  waiting := rfl
  filled := nofun

/-- A group joins what waits, and together they make up a case as soon as there is code. -/
theorem group (gathers : Gathers groups list) (case : Case) :
    Gathers (groups ++ [case]) (list.addGroup case.labels case.body) := by
  obtain ⟨labels, body⟩ := case
  have joined : SameFlow (groups ++ [.mk labels body])
      (list.cases ++ [.mk (list.labels ++ labels) (list.body ++ body)]) := by
    have behind := gathers.flow.append (.refl [.mk labels body])
    rw [List.append_assoc] at behind
    exact behind.trans (.append (.refl list.cases) (.shared gathers.waiting body))
  unfold CaseList.addGroup
  dsimp only
  split
  next silent =>
    exact ⟨joined, code_eq_nil_iff.mpr silent, gathers.filled⟩
  next filled =>
    refine ⟨?_, rfl, ?_⟩
    · have behind := joined.append (SameFlow.blank code_nil).symm
      rwa [List.append_nil] at behind
    · intro case member
      rcases List.mem_append.mp member with earlier | final
      · exact gathers.filled case earlier
      · rw [List.mem_singleton.mp final]
        exact fun silent => filled (code_eq_nil_iff.mp silent)

theorem comment (gathers : Gathers groups list) (comment : Comment) :
    Gathers groups (list.addComment (.comment comment)) := by
  unfold CaseList.addComment
  split
  next =>
    refine ⟨?_, gathers.waiting, ?_⟩
    · exact gathers.flow.trans (.append (appendToLast_sameFlow _ _).symm (.refl _))
    · refine forall_mem_appendToLast gathers.filled fun labels body member => ?_
      simpa [Case.body] using gathers.filled _ member
  next =>
    refine ⟨?_, by simpa using gathers.waiting, gathers.filled⟩
    exact gathers.flow.trans (.append (.refl _) (.body (by simp)))

theorem foldl (items : List SwitchItem) (noRules : ∀ item ∈ items, item.rule? = none)
    (gathers : Gathers groups list) :
    Gathers (groups ++ items.filterMap SwitchItem.group?) (items.foldl .add list) := by
  induction items generalizing groups list with
  | nil => simpa using gathers
  | cons item rest ih =>
    rw [List.forall_mem_cons] at noRules
    cases item with
    | group case =>
      have later := ih noRules.2 (gathers.group case)
      rwa [List.append_assoc] at later
    | rule case => cases noRules.1
    | comment text => exact ih noRules.2 (gathers.comment text)

end Gathers

/-- Groups are conserved in cases: the labels and the code are the same in the same order, only the
last case may be without code, and from each label the same code is run. -/
structure Conserved (groups cases : List Case) : Prop where
  labels : cases.flatMap Case.labels = groups.flatMap Case.labels
  code : codeOf cases = codeOf groups
  filled : ∀ case ∈ cases.dropLast, Retarget.code case.body ≠ []
  flow : flowInto [] cases = flowInto [] groups

theorem SameFlow.labels {first second : List Case} (same : SameFlow first second) :
    first.flatMap Case.labels = second.flatMap Case.labels := by
  rw [← map_fst_flowInto [], same.flow, map_fst_flowInto]

/-- Labels that still wait at the end make up a last case. -/
theorem Gathers.finish {groups : List Case} {list : CaseList} (gathers : Gathers groups list) :
    Conserved groups list.finish := by
  have same : SameFlow list.finish groups := by
    unfold CaseList.finish
    split
    next none =>
      have blank : SameFlow [.mk list.labels list.body] [] := by
        rw [List.isEmpty_iff.mp none]
        exact .blank gathers.waiting
      have whole := SameFlow.append (.refl list.cases) blank
      rw [List.append_nil] at whole
      exact (gathers.flow.trans whole).symm
    next => exact gathers.flow.symm
  refine ⟨same.labels, same.code, fun case member => ?_, same.flow []⟩
  unfold CaseList.finish at member
  split at member
  next => exact gathers.filled case ((List.dropLast_sublist _).subset member)
  next =>
    rw [List.dropLast_concat] at member
    exact gathers.filled case member

theorem gathered_conserved (items : List SwitchItem)
    (noRules : ∀ item ∈ items, item.rule? = none) :
    Conserved (items.filterMap SwitchItem.group?) (gathered items) :=
  (Gathers.empty.foldl items noRules).finish

end Groups

section Rules

theorem untilJump_of_endsWithJump {body : List Stmt} (leaves : endsWithJump body = true)
    (after : List Stmt) : untilJump (body ++ after) = untilJump body := by
  induction body with
  | nil => cases leaves
  | cons s rest ih =>
    rw [List.cons_append, untilJump, untilJump]
    cases rest with
    | nil =>
      have jump : s.isJump = true := leaves
      rw [jump, if_pos rfl, if_pos rfl]
    | cons next rest => rw [ih (by rwa [endsWithJump, List.getLast?_cons_cons] at leaves)]

theorem endsWithJump_concat (body : List Stmt) (s : Stmt) :
    endsWithJump (body ++ [s]) = s.isJump := by
  rw [endsWithJump, List.getLast?_concat]
  rfl

theorem isCommentStmt_of_isJump {s : Stmt} (jump : s.isJump = true) : isCommentStmt s = false := by
  cases s with
  | comment => cases jump
  | _ => rfl

theorem endsWithJump_code {body : List Stmt} (leaves : endsWithJump body = true) :
    endsWithJump (code body) = true := by
  obtain ⟨last, final, jump⟩ := (Option.any_eq_true _ _).mp leaves
  obtain ⟨before, rfl⟩ := List.getLast?_eq_some_iff.mp final
  have kept : code [last] = [last] := by simp [code, isCommentStmt_of_isJump jump]
  rw [code_append, kept, endsWithJump_concat]
  exact jump

theorem endsWithJump_closed (body : List Stmt) : endsWithJump (closed body) = true := by
  unfold closed
  split
  next leaves => exact leaves
  next => exact endsWithJump_concat body .breakStmt

theorem code_comments (comments : List Comment) : code (comments.map .comment) = [] := by
  simp [code_eq_nil_iff, isCommentStmt]

def leading : List SwitchItem → List Comment
  | .comment comment :: rest => comment :: leading rest
  | _ => []

def followed : List SwitchItem → List (Case × List Comment)
  | [] => []
  | .rule rule :: rest => (rule, leading rest) :: followed rest
  | .group _ :: rest | .comment _ :: rest => followed rest

def ruleCase (entry : Case × List Comment) : Case :=
  .mk entry.1.labels (closed entry.1.body ++ entry.2.map .comment)

theorem map_fst_followed (items : List SwitchItem) :
    (followed items).map Prod.fst = items.filterMap SwitchItem.rule? := by
  induction items with
  | nil => rfl
  | cons item rest ih => cases item <;> simp [followed, SwitchItem.rule?, List.filterMap_cons, ih]

theorem foldl_appendToLast (cases : List Case) (labels : List SwitchLabel) (body : List Stmt)
    (comments : List Comment) :
    comments.foldl (fun cases comment => CaseList.appendToLast cases (.comment comment))
        (cases ++ [.mk labels body]) =
      cases ++ [.mk labels (body ++ comments.map .comment)] := by
  induction comments generalizing body with
  | nil => simp
  | cons comment rest ih =>
    have appended : CaseList.appendToLast (cases ++ [.mk labels body]) (.comment comment) =
        cases ++ [.mk labels (body ++ [.comment comment])] := by simp [CaseList.appendToLast]
    rw [List.foldl_cons, appended, ih, List.append_assoc, List.map_cons, List.singleton_append]

/-- Rules and comments make up cases one after the other, and nothing waits. -/
theorem foldl_rules (items : List SwitchItem) (noGroups : ∀ item ∈ items, item.group? = none)
    (cases : List Case) :
    items.foldl CaseList.add { cases } =
      { cases := (leading items).foldl
          (fun cases comment => CaseList.appendToLast cases (.comment comment)) cases ++
            (followed items).map ruleCase } := by
  induction items generalizing cases with
  | nil => simp [leading, followed]
  | cons item rest ih =>
    rw [List.forall_mem_cons] at noGroups
    cases item with
    | group case => cases noGroups.1
    | rule rule =>
      have added : CaseList.add { cases } (.rule rule) =
          { cases := cases ++ [.mk rule.labels (closed rule.body)] } := rfl
      rw [List.foldl_cons, added, ih noGroups.2, foldl_appendToLast, followed, List.map_cons,
        List.append_assoc, List.singleton_append]
      rfl
    | comment comment => exact ih noGroups.2 _

theorem gathered_rules (items : List SwitchItem)
    (noGroups : ∀ item ∈ items, item.group? = none) :
    gathered items = (followed items).map ruleCase := by
  have none : ∀ comments : List Comment, comments.foldl
      (fun cases comment => CaseList.appendToLast cases (.comment comment)) [] = [] := by
    intro comments
    induction comments with
    | nil => rfl
    | cons comment rest ih => exact ih
  rw [gathered, foldl_rules items noGroups, none]
  rfl

theorem flowInto_of_leaves {cases : List Case}
    (leaves : ∀ case ∈ cases, endsWithJump (code case.body) = true) (after : List Stmt) :
    flowInto after cases =
      cases.flatMap fun case => case.labels.map (·, untilJump (code case.body)) := by
  induction cases with
  | nil => rfl
  | cons case rest ih =>
    rw [List.forall_mem_cons] at leaves
    rw [flowInto, ih leaves.2, List.flatMap_cons, codeOf_cons, List.append_assoc,
      untilJump_of_endsWithJump leaves.1]

/-- Each rule makes up a case with its own labels, whose code ends with a jump and is all that is
run from them. The body itself ends with the jump exactly if no comment stands behind the rule. -/
structure Ruled (items : List SwitchItem) (cases : List Case) : Prop where
  cases_eq : cases = (followed items).map ruleCase
  labels : cases.map Case.labels = (items.filterMap SwitchItem.rule?).map Case.labels
  leaves : ∀ case ∈ cases, endsWithJump (code case.body) = true
  flow : flowInto [] cases =
    cases.flatMap fun case => case.labels.map (·, untilJump (code case.body))
  last : ∀ entry ∈ followed items, (endsWithJump (ruleCase entry).body = true ↔ entry.2 = [])

theorem gathered_ruled (items : List SwitchItem)
    (noGroups : ∀ item ∈ items, item.group? = none) : Ruled items (gathered items) := by
  rw [gathered_rules items noGroups]
  have leaves : ∀ case ∈ (followed items).map ruleCase, endsWithJump (code case.body) = true := by
    refine List.forall_mem_map.mpr fun entry _ => ?_
    rw [ruleCase, Case.body, code_append, code_comments, List.append_nil]
    exact endsWithJump_code (endsWithJump_closed entry.1.body)
  refine ⟨rfl, ?_, leaves, flowInto_of_leaves leaves [], fun entry _ => ?_⟩
  · rw [← map_fst_followed, List.map_map, List.map_map]
    rfl
  · obtain ⟨rule, comments⟩ := entry
    rcases List.eq_nil_or_concat comments with rfl | ⟨before, final, rfl⟩
    · simpa [ruleCase, Case.body] using endsWithJump_closed rule.body
    · rw [List.concat_eq_append, ruleCase, Case.body, List.map_append, ← List.append_assoc,
        List.map_singleton, endsWithJump_concat]
      simp [Stmt.isJump]

end Rules

end Retarget
