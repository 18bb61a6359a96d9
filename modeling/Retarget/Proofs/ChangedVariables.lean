import Retarget.Proofs.CChanges

/-!
# Variables that are changed

A variable is changed in a statement if an assignment or update with the variable as its target
stands in it, at any depth.
-/

namespace Retarget

variable {e : Expr} {place : Position × Expr} {wider : Position → Bool} {s : Stmt}

/-- Where an expression stands in the expression or statement that holds it. -/
inductive Position where
  | plain
  | target
  /-- One of the expressions that a declared array is made from. -/
  | contents
  /-- What a loop over an array goes through. -/
  | iterable
  | returned
  | label
  deriving DecidableEq

def Position.isSeen (position : Position) : Bool := position = plain

def Position.isAny (_ : Position) : Bool := true

namespace Expr

def placed : Expr → List (Position × Expr)
  | assign _ target value => [(.target, target), (.plain, value)]
  | update _ _ target => [(.target, target)]
  | e => e.parts.map (.plain, ·)

/-- An expression stands in another at any depth, in admitted positions only, or is it. -/
inductive Reached (admitted : Position → Bool) : Expr → Expr → Prop where
  | here (e : Expr) : Reached admitted e e
  | part {inner outer : Expr} {place : Position × Expr} (direct : place ∈ outer.placed)
      (opened : admitted place.1 = true) (inside : Reached admitted inner place.2) :
      Reached admitted inner outer

def isChangeOf (name : String) : Expr → Bool
  | assign _ target _ | update _ _ target => target.isIdent name
  | _ => false

def Changes (admitted : Position → Bool) (name : String) (e : Expr) : Prop :=
  ∃ inner : Expr, inner.Reached admitted e ∧ inner.isChangeOf name = true

variable {admitted : Position → Bool} {name : String}

theorem map_snd_placed (e : Expr) : e.placed.map Prod.snd = e.parts := by
  cases e <;> simp [placed, parts, Function.comp_def]

theorem part_of_placed (direct : place ∈ e.placed) : place.2 ∈ e.parts := by
  rw [← map_snd_placed]
  exact List.mem_map_of_mem direct

theorem reached_any_iff {inner : Expr} : inner.Reached Position.isAny e ↔ inner.Occurs e := by
  constructor
  · intro reached
    induction reached with
    | here => exact .here _
    | part direct _ _ ih => exact .part (part_of_placed direct) ih
  · intro occurs
    induction occurs with
    | here => exact .here _
    | part direct _ ih =>
      rw [← map_snd_placed] at direct
      obtain ⟨place, placed, rfl⟩ := List.mem_map.mp direct
      exact .part placed rfl ih

theorem changes_iff (e : Expr) : e.Changes admitted name ↔ e.isChangeOf name = true ∨
      ∃ place ∈ e.placed, admitted place.1 = true ∧ place.2.Changes admitted name := by
  constructor
  · rintro ⟨inner, _ | ⟨direct, opened, inside⟩, change⟩
    · exact .inl change
    · exact .inr ⟨_, direct, opened, inner, inside, change⟩
  · rintro (change | ⟨place, direct, opened, inner, inside, change⟩)
    · exact ⟨e, .here e, change⟩
    · exact ⟨inner, .part direct opened inside, change⟩

/-- One step of the analysis: the expression itself, and the parts outside of targets. -/
theorem writes_eq (name : String) (e : Expr) : e.writes name = (e.isChangeOf name ||
      e.placed.any fun place => place.1.isSeen && place.2.writes name) := by
  rcases e with _ | _ | _ | _ | _ | _ | _ | _ | _ | _ | _ | _ | _ | ⟨_ | _, _, _⟩ <;>
    simp [writes, isChangeOf, placed, parts, Position.isSeen, anyWrites_eq, Function.comp_def,
      Bool.or_assoc]

theorem writes_iff_changes (e : Expr) : e.writes name = true ↔ e.Changes Position.isSeen name := by
  induction e using induction_parts with
  | step e ih =>
    rw [writes_eq, Bool.or_eq_true, changes_iff, List.any_eq_true]
    simp only [Bool.and_eq_true]
    refine or_congr_right ?_
    constructor
    · rintro ⟨place, direct, seen, found⟩
      exact ⟨place, direct, seen, (ih _ (part_of_placed direct)).mp found⟩
    · rintro ⟨place, direct, seen, found⟩
      exact ⟨place, direct, seen, (ih _ (part_of_placed direct)).mpr found⟩

theorem Reached.mono {inner : Expr} (reached : inner.Reached admitted e)
    (weaker : ∀ position, admitted position = true → wider position = true) :
    inner.Reached wider e := by
  induction reached with
  | here => exact .here _
  | part direct opened _ ih => exact .part direct (weaker _ opened) ih

theorem Changes.of_placed (direct : place ∈ e.placed) (opened : admitted place.1 = true)
    (inside : place.2.Changes admitted name) : e.Changes admitted name :=
  (changes_iff e).mpr (.inr ⟨place, direct, opened, inside⟩)

theorem not_changes_ident (other : String) : ¬ (ident other).Changes admitted name := by
  rintro ⟨_, _ | ⟨direct, _, _⟩, change⟩
  · cases change
  · cases direct

theorem Changes.mono (changes : e.Changes admitted name)
    (weaker : ∀ position, admitted position = true → wider position = true) :
    e.Changes wider name := by
  obtain ⟨inner, reached, change⟩ := changes
  exact ⟨inner, reached.mono weaker, change⟩

end Expr

def Branch.condition : Branch → Expr
  | mk condition _ => condition

def Branch.body : Branch → List Stmt
  | mk _ body => body

namespace Stmt

def placed : Stmt → List (Position × Expr)
  | declare _ _ init => init.toList.map (.plain, ·)
  | declareArray _ _ _ init => init.exprs.map (.contents, ·)
  | expr e => [(.plain, e)]
  | print p => p.args.map (.plain, ·)
  | conditional condition _ elifs _ => (condition :: elifs.map Branch.condition).map (.plain, ·)
  | switch discriminant cases =>
    (.plain, discriminant) :: (cases.flatMap Case.values).map (.label, ·)
  | forLoop _ condition update _ => (condition.toList ++ update).map (.plain, ·)
  | whileLoop condition _ | doWhile condition _ => [(.plain, condition)]
  | forEach _ _ iterable _ => [(.iterable, iterable)]
  | returnStmt value => value.toList.map (.returned, ·)
  | breakStmt | continueStmt | comment _ | block _ | sequence _ | unsupported .. => []

def parts : Stmt → List Stmt
  | conditional _ body elifs otherwise =>
    body ++ elifs.flatMap Branch.body ++ otherwise.getD []
  | switch _ cases => cases.flatMap Case.body
  | forLoop init _ _ body => init.toList ++ body
  | whileLoop _ body | doWhile _ body | forEach _ _ _ body | block body | sequence body => body
  | _ => []

/-- A statement stands in another at any depth, or is it. -/
inductive Occurs : Stmt → Stmt → Prop where
  | here (s : Stmt) : Occurs s s
  | part {inner part outer : Stmt} (direct : part ∈ outer.parts) (inside : Occurs inner part) :
      Occurs inner outer

/-- Whether a statement is a loop over an array that binds the variable `name`. -/
def binds (name : String) : Stmt → Bool
  | forEach _ bound _ _ => bound = name
  | _ => false

def Changes (admitted : Position → Bool) (name : String) (s : Stmt) : Prop :=
  ∃ holder : Stmt, holder.Occurs s ∧
    ∃ place ∈ holder.placed, admitted place.1 = true ∧ place.2.Changes admitted name

/-- A loop over an array that binds the variable `name` stands in the statement. -/
def Binds (name : String) (s : Stmt) : Prop :=
  ∃ loop : Stmt, loop.Occurs s ∧ loop.binds name = true

variable {admitted : Position → Bool} {name : String}

theorem sizeOf_lt_of_part {part : Stmt} (direct : part ∈ s.parts) : sizeOf part < sizeOf s := by
  cases s with
  | conditional condition body elifs otherwise =>
    simp only [parts, List.mem_append, List.mem_flatMap] at direct
    rcases direct with (inBody | ⟨⟨test, inner⟩, isBranch, inBranch⟩) | inRest
    · have smaller := List.sizeOf_lt_of_mem inBody
      simp only [conditional.sizeOf_spec]
      omega
    · have smaller := List.sizeOf_lt_of_mem isBranch
      have inside : sizeOf part < sizeOf inner := List.sizeOf_lt_of_mem inBranch
      simp only [conditional.sizeOf_spec, Branch.mk.sizeOf_spec] at smaller ⊢
      omega
    · cases otherwise with
      | none => cases inRest
      | some rest =>
        have smaller : sizeOf part < sizeOf rest := List.sizeOf_lt_of_mem inRest
        simp only [conditional.sizeOf_spec, Option.some.sizeOf_spec]
        omega
  | switch discriminant cases =>
    simp only [parts, List.mem_flatMap] at direct
    obtain ⟨⟨labels, body⟩, isCase, inBody⟩ := direct
    have smaller := List.sizeOf_lt_of_mem isCase
    have inside : sizeOf part < sizeOf body := List.sizeOf_lt_of_mem inBody
    simp only [switch.sizeOf_spec, Case.mk.sizeOf_spec] at smaller ⊢
    omega
  | forLoop init condition update body =>
    rcases List.mem_append.mp direct with isInit | inBody
    · rw [Option.mem_toList] at isInit
      cases isInit
      simp only [forLoop.sizeOf_spec, Option.some.sizeOf_spec]
      omega
    · have smaller := List.sizeOf_lt_of_mem inBody
      simp only [forLoop.sizeOf_spec]
      omega
  | whileLoop _ body | doWhile _ body | forEach _ _ _ body | block body | sequence body =>
    have smaller : sizeOf part < sizeOf body := List.sizeOf_lt_of_mem direct
    simp only [whileLoop.sizeOf_spec, doWhile.sizeOf_spec, forEach.sizeOf_spec,
      block.sizeOf_spec, sequence.sizeOf_spec]
    omega
  | _ => cases direct

theorem induction_parts {holds : Stmt → Prop}
    (step : ∀ s, (∀ part ∈ s.parts, holds part) → holds s) (s : Stmt) : holds s :=
  step s fun part _ => induction_parts step part
termination_by sizeOf s
decreasing_by exact sizeOf_lt_of_part ‹_›

end Stmt

theorem eq_any {α : Type} {whole : List α → Bool} {one : α → Bool} (nil : whole [] = false)
    (cons : ∀ x rest, whole (x :: rest) = (one x || whole rest)) (xs : List α) :
    whole xs = xs.any one := by
  induction xs with
  | nil => exact nil
  | cons x rest ih => rw [cons, ih, List.any_cons]

theorem blockWrites_eq (name : String) (block : List Stmt) :
    blockWrites name block = block.any fun s => s.writes name :=
  eq_any rfl (fun _ _ => rfl) block

theorem branchesWrite_eq (name : String) (branches : List Branch) :
    branchesWrite name branches = ((branches.map Branch.condition).any (·.writes name) ||
      (branches.flatMap Branch.body).any fun s => s.writes name) := by
  induction branches with
  | nil => rfl
  | cons branch rest ih =>
    obtain ⟨condition, body⟩ := branch
    rw [branchesWrite, ih, blockWrites_eq, List.map_cons, List.any_cons, List.flatMap_cons,
      List.any_append, Branch.condition, Branch.body]
    ac_rfl

theorem casesWrite_eq (name : String) (cases : List Case) :
    casesWrite name cases = (cases.flatMap Case.body).any fun s => s.writes name := by
  rw [List.any_flatMap]
  refine eq_any rfl (fun case rest => ?_) cases
  obtain ⟨labels, body⟩ := case
  rw [casesWrite, blockWrites_eq, Case.body]

namespace Stmt

variable {admitted : Position → Bool} {name : String}

/-- One step of the analysis: a loop that binds the variable, the expressions of the statement in
the positions that are looked at, and the statements in it. -/
theorem writes_eq (name : String) (s : Stmt) : s.writes name = (s.binds name ||
      (s.placed.any fun place => place.1.isSeen && place.2.writes name) ||
      s.parts.any fun part => part.writes name) := by
  cases s with
  | conditional condition body elifs otherwise =>
    cases otherwise <;>
      simp [writes, binds, placed, parts, Position.isSeen, branchesWrite_eq, blockWrites_eq,
        Function.comp_def] <;> ac_rfl
  | forLoop init condition update body =>
    cases init <;> cases condition <;>
      simp [writes, binds, placed, parts, Position.isSeen, Expr.anyWrites_eq, blockWrites_eq,
        Function.comp_def] <;> ac_rfl
  | switch discriminant cases =>
    have labels : (((cases.flatMap Case.values).map (Position.label, ·)).any fun place =>
        place.1.isSeen && place.2.writes name) = false := by
      rw [List.any_map]
      exact List.any_eq_false.mpr fun e _ => by simp [Position.isSeen]
    rw [placed, List.any_cons, labels]
    simp [writes, binds, parts, Position.isSeen, casesWrite_eq]
  | declare name type init | returnStmt init =>
    cases init <;> simp [writes, binds, placed, parts, Position.isSeen]
  | _ =>
    simp [writes, binds, placed, parts, Position.isSeen, Expr.anyWrites_eq, blockWrites_eq,
      Function.comp_def]

theorem changes_iff (s : Stmt) : s.Changes admitted name ↔
      (∃ place ∈ s.placed, admitted place.1 = true ∧ place.2.Changes admitted name) ∨
        ∃ part ∈ s.parts, part.Changes admitted name := by
  constructor
  · rintro ⟨holder, _ | ⟨direct, inside⟩, found⟩
    · exact .inl found
    · exact .inr ⟨_, direct, holder, inside, found⟩
  · rintro (found | ⟨part, direct, holder, inside, found⟩)
    · exact ⟨s, .here s, found⟩
    · exact ⟨holder, .part direct inside, found⟩

theorem binds_iff (s : Stmt) :
    s.Binds name ↔ s.binds name = true ∨ ∃ part ∈ s.parts, part.Binds name := by
  constructor
  · rintro ⟨loop, _ | ⟨direct, inside⟩, found⟩
    · exact .inl found
    · exact .inr ⟨_, direct, loop, inside, found⟩
  · rintro (found | ⟨part, direct, loop, inside, found⟩)
    · exact ⟨s, .here s, found⟩
    · exact ⟨loop, .part direct inside, found⟩

theorem writes_iff (s : Stmt) :
    s.writes name = true ↔ s.Changes Position.isSeen name ∨ s.Binds name := by
  induction s using induction_parts with
  | step s ih =>
    rw [writes_eq, changes_iff, binds_iff]
    simp only [Bool.or_eq_true, List.any_eq_true, Bool.and_eq_true, Expr.writes_iff_changes]
    have inner : (∃ part ∈ s.parts, part.writes name = true) ↔
        (∃ part ∈ s.parts, part.Changes Position.isSeen name) ∨
          ∃ part ∈ s.parts, part.Binds name := by
      rw [← exists_or]
      refine exists_congr fun part => ?_
      rw [← and_or_left]
      exact and_congr_right (ih part)
    exact ⟨by grind, by grind⟩

theorem Changes.of_placed (direct : place ∈ s.placed) (opened : admitted place.1 = true)
    (inside : place.2.Changes admitted name) : s.Changes admitted name :=
  ⟨s, .here s, place, direct, opened, inside⟩

theorem Changes.mono (changes : s.Changes admitted name)
    (weaker : ∀ position, admitted position = true → wider position = true) :
    s.Changes wider name := by
  obtain ⟨holder, occurs, place, direct, opened, found⟩ := changes
  exact ⟨holder, occurs, place, direct, weaker _ opened, found.mono weaker⟩

end Stmt

theorem blockWrites_iff {name : String} (block : List Stmt) : blockWrites name block = true ↔
      ∃ s ∈ block, s.Changes Position.isSeen name ∨ s.Binds name := by
  simp only [blockWrites_eq, List.any_eq_true, Stmt.writes_iff]

/-- The analysis of writes answers yes exactly if a change of the variable stands in a position that
it looks at, or if a loop over an array binds the variable. So what it finds is there, and a change
that it misses stands in the target of another change, in the contents of a declared array, in what
a loop over an array goes through, in the value of a return, or in a label. -/
theorem writes_iff_seen (name : String) :
    (∀ e : Expr, (e.writes name = true ↔ e.Changes Position.isSeen name) ∧
      (e.writes name = true → ∃ inner : Expr, inner.Occurs e ∧ inner.isChangeOf name = true)) ∧
    (∀ s : Stmt, (s.writes name = true ↔ s.Changes Position.isSeen name ∨ s.Binds name) ∧
      (s.writes name = true → s.Changes Position.isAny name ∨ s.Binds name)) ∧
    ∀ block : List Stmt,
      (blockWrites name block = true ↔
        ∃ s ∈ block, s.Changes Position.isSeen name ∨ s.Binds name) ∧
      (blockWrites name block = true →
        ∃ s ∈ block, s.Changes Position.isAny name ∨ s.Binds name) := by
  refine ⟨fun e => ⟨e.writes_iff_changes, fun found => ?_⟩,
    fun s => ⟨s.writes_iff, fun found => ?_⟩, fun block => ⟨blockWrites_iff block, fun found => ?_⟩⟩
  · obtain ⟨inner, reached, change⟩ := e.writes_iff_changes.mp found
    exact ⟨inner, Expr.reached_any_iff.mp (reached.mono fun _ _ => rfl), change⟩
  · exact (s.writes_iff.mp found).imp_left fun changes => changes.mono fun _ _ => rfl
  · obtain ⟨s, member, here⟩ := (blockWrites_iff block).mp found
    exact ⟨s, member, here.imp_left fun changes => changes.mono fun _ _ => rfl⟩

/-- A step of `i` is missed in each of the positions that are not looked at: `a[i++] = 0`,
`a[i++]++`, `int[] b = new int[i++]`, `for (int x : a[i++])`, `return i++`, and the label `i++`. -/
theorem hidden_step_missed :
    let step : Expr := .update .increment false (.ident "i")
    let item : Expr := .index (.ident "a") step
    ∀ s ∈ ([.expr (.assign .plain item (.literal (.int "0"))),
        .expr (.update .increment false item), .declareArray "b" .int 1 (.allocate [step]),
        .forEach .int "x" item [], .returnStmt (some step),
        .switch (.ident "n") [.mk [.value step] []]] : List Stmt),
      s.Changes Position.isAny "i" ∧ s.writes "i" = false := by
  intro step item
  have changed : step.Changes Position.isAny "i" := ⟨step, .here step, rfl⟩
  have position : (Position.plain, step) ∈ item.placed := by simp [item, Expr.placed, Expr.parts]
  have inItem : item.Changes Position.isAny "i" := .of_placed position rfl changed
  have inTarget : ∀ e : Expr, (Position.target, item) ∈ e.placed →
      e.Changes Position.isAny "i" := fun _ target => .of_placed target rfl inItem
  have inAssign := inTarget (.assign .plain item (.literal (.int "0"))) (by simp [Expr.placed])
  have inUpdate := inTarget (.update .increment false item) (by simp [Expr.placed])
  simp only [List.forall_mem_cons]
  refine ⟨⟨.of_placed (List.mem_singleton_self _) rfl inAssign, rfl⟩,
    ⟨.of_placed (List.mem_singleton_self _) rfl inUpdate, rfl⟩,
    ⟨.of_placed (List.mem_singleton_self _) rfl changed, rfl⟩,
    ⟨.of_placed (List.mem_singleton_self _) rfl inItem, rfl⟩,
    ⟨.of_placed (List.mem_singleton_self _) rfl changed, rfl⟩,
    ⟨.of_placed (List.mem_cons_of_mem _ (List.mem_singleton_self _)) rfl changed, rfl⟩, ?_⟩
  exact fun _ member => by cases member

end Retarget
