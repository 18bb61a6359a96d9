import Retarget.Proofs.ChangedVariables

/-!
# The header of a counting loop

A range is made once, before the first round, while the condition of a `for` loop is evaluated
before every round.
-/

namespace Retarget

open Position (isAny isSeen)

def CompareOp.holds (op : CompareOp) (left right : Int) : Bool :=
  match op with
  | .lt => left < right
  | .le => left ≤ right
  | .gt => right < left
  | .ge => right ≤ left
  | .eq => left = right
  | .ne => left ≠ right

namespace Python

/-- The values that a loop variable takes from one value on, if it is compared with the same number
before every round. -/
inductive Counts (op : CompareOp) (last step : Int) : Int → List Int → Prop where
  | leave {value : Int} (beyond : op.holds value last = false) : Counts op last step value []
  | round {value : Int} {values : List Int} (within : op.holds value last = true)
      (rest : Counts op last step (value + step) values) :
      Counts op last step value (value :: values)

theorem Counts.unique {op : CompareOp} {last step value : Int} {values others : List Int}
    (counts : Counts op last step value values) (again : Counts op last step value others) :
    others = values := by
  induction counts generalizing others with
  | leave beyond =>
    cases again with
    | leave => rfl
    | round within => exact absurd (beyond.symm.trans within) Bool.false_ne_true
  | round within _ ih =>
    cases again with
    | leave beyond => exact absurd (beyond.symm.trans within) Bool.false_ne_true
    | round _ rest => rw [ih rest]

/-- What the body of a loop does to the variables and what its bound amounts to: the body keeps a
variable that it has no change of, and the bound depends on the variables in it. -/
structure Meaning (bound : Expr) (body : List Stmt) where
  run : (String → Int) → String → Int
  value : (String → Int) → Int
  kept : ∀ name, (∀ s ∈ body, ¬ s.Changes isAny name) →
    ∀ state, run state name = state name
  determined : ∀ first second : String → Int,
    (∀ name, (Expr.ident name).Occurs bound → first name = second name) → value first = value second

/-- The values that the variable `name` takes in a loop whose bound is evaluated anew before every
round. -/
inductive Rounds {bound : Expr} {body : List Stmt} (meaning : Meaning bound body) (op : CompareOp)
    (name : String) (step : Int) : (String → Int) → List Int → Prop where
  | leave {state : String → Int} (beyond : op.holds (state name) (meaning.value state) = false) :
      Rounds meaning op name step state []
  | round {state : String → Int} {values : List Int}
      (within : op.holds (state name) (meaning.value state) = true)
      (rest : Rounds meaning op name step
        (Function.update (meaning.run state) name (meaning.run state name + step)) values) :
      Rounds meaning op name step state (state name :: values)

/-- The bound is a number of its own throughout the rounds: neither the body nor the update changes
a variable in it. -/
structure Invariant (name : String) (bound : Expr) (body : List Stmt) : Prop where
  variableKept : ∀ s ∈ body, ¬ s.Changes isAny name
  boundKept : ∀ other, (Expr.ident other).Occurs bound →
    ∀ s ∈ body, ¬ s.Changes isAny other
  apart : ¬ (Expr.ident name).Occurs bound

namespace Invariant

variable {bound : Expr} {body : List Stmt} {name : String}

theorem round_eq (invariant : Invariant name bound body) (meaning : Meaning bound body)
    (step : Int) (state : String → Int) :
    let next := Function.update (meaning.run state) name (meaning.run state name + step)
    next name = state name + step ∧ meaning.value next = meaning.value state := by
  intro next
  constructor
  · exact (Function.update_self ..).trans (by rw [meaning.kept name invariant.variableKept])
  · refine meaning.determined next state fun other occurs => ?_
    have different : other ≠ name := by
      rintro rfl
      exact invariant.apart occurs
    exact (Function.update_of_ne different ..).trans
      (meaning.kept other (invariant.boundKept other occurs) state)

theorem rounds_iff_counts (invariant : Invariant name bound body) (meaning : Meaning bound body)
    {op : CompareOp} {step : Int} {state : String → Int} {values : List Int} :
    Rounds meaning op name step state values ↔
      Counts op (meaning.value state) step (state name) values := by
  constructor
  · intro rounds
    induction rounds with
    | leave beyond => exact .leave beyond
    | @round state _ within _ ih =>
      obtain ⟨moved, same⟩ := invariant.round_eq meaning step state
      rw [moved, same] at ih
      exact .round within ih
  · intro counts
    induction values generalizing state with
    | nil =>
      cases counts with
      | leave beyond => exact .leave beyond
    | cons value values ih =>
      obtain ⟨moved, same⟩ := invariant.round_eq meaning step state
      cases counts with
      | round within rest => exact .round within (ih (by rwa [moved, same]))

end Invariant

structure Counting.Header (loop : Counting) (init : Option Stmt) (condition : Option Expr)
    (update : List Expr) : Prop where
  init_eq : init = some (.declare loop.name loop.type (some loop.start))
  condition_eq : condition = some (.compare loop.op (.ident loop.name) loop.bound)
  update_eq : ∃ change, update = [change] ∧ stepOf loop.name change = .ok (some loop.step)
  countable : isCountable loop.type = true
  onward : advances loop.op loop.step = true

variable {init : Option Stmt} {condition : Option Expr} {update : List Expr} {body : List Stmt}
  {loop : Counting}

theorem eq_ident_of_isIdent {e : Expr} {name : String} (same : e.isIdent name = true) :
    e = .ident name := by
  cases e with
  | ident other => rw [of_decide_eq_true same]
  | _ => cases same

theorem counting?_eq_ok_some_iff : counting? init condition update body = .ok (some loop) ↔
      loop.Header init condition update ∧ leavesHeaderAlone loop.name loop.bound body = true := by
  constructor
  · intro accepted
    unfold counting? at accepted
    split at accepted
    next name type start op left bound change =>
      split at accepted
      next form =>
        rw [Bool.and_eq_true] at form
        cases stepped : stepOf name change with
        | error fault => rw [stepped] at accepted; cases accepted
        | ok found =>
          rw [stepped] at accepted
          cases found with
          | none => cases accepted
          | some step =>
            simp only [bind, Except.bind] at accepted
            split at accepted
            next onward =>
              rw [Bool.and_eq_true] at onward
              cases accepted
              exact ⟨⟨rfl, by rw [eq_ident_of_isIdent form.2], ⟨change, rfl, stepped⟩,
                form.1, onward.1⟩, onward.2⟩
            next => cases accepted
      next => cases accepted
    next => cases accepted
  · rintro ⟨⟨rfl, rfl, ⟨change, rfl, stepped⟩, countable, onward⟩, alone⟩
    simp [counting?, countable, Expr.isIdent, stepped, onward, alone, bind, Except.bind, pure,
      Except.pure]

theorem leavesHeaderAlone_iff {name : String} {bound : Expr} :
    leavesHeaderAlone name bound body = true ↔
      ∀ other, other = name ∨ bound = .ident other →
        ∀ s ∈ body, ¬ s.Changes isSeen other ∧ ¬ s.Binds other := by
  have unwritten : ∀ other, blockWrites other body = false ↔
      ∀ s ∈ body, ¬ s.Changes isSeen other ∧ ¬ s.Binds other := by
    intro other
    rw [← Bool.not_eq_true, blockWrites_iff]
    simp only [not_exists, not_and, not_or]
  have named : bound.ident?.any (blockWrites · body) = false ↔
      ∀ other, bound = .ident other → blockWrites other body = false := by
    cases bound <;> simp [Expr.ident?]
  rw [leavesHeaderAlone, Bool.and_eq_true, Bool.not_eq_true', Bool.not_eq_true', named]
  simp only [unwritten]
  constructor
  · rintro ⟨counter, whole⟩ other (rfl | same)
    · exact counter
    · exact whole other same
  · exact fun alone => ⟨alone name (.inl rfl), fun other same => alone other (.inr same)⟩

/-- A loop is taken for a counting one exactly if its header has the form, and neither the loop
variable nor a bound that is a variable is changed in the body where the analysis of writes looks.
If the body has no changes elsewhere, and the bound no variables other than the bound itself and
not the loop variable, then a range goes through the values that the variable takes when the bound
is evaluated before every round. -/
theorem counting_iff_header_seen_unchanged (init : Option Stmt) (condition : Option Expr)
    (update : List Expr) (body : List Stmt) (loop : Counting) :
    (counting? init condition update body = .ok (some loop) ↔
      loop.Header init condition update ∧
        ∀ name, name = loop.name ∨ loop.bound = .ident name →
          ∀ s ∈ body, ¬ s.Changes isSeen name ∧ ¬ s.Binds name) ∧
    (counting? init condition update body = .ok (some loop) →
      (∀ s ∈ body, ∀ name, s.Changes isAny name → s.Changes isSeen name) →
      (∀ name, (Expr.ident name).Occurs loop.bound → loop.bound = .ident name) →
      (∀ name, name = loop.name ∨ (Expr.ident name).Occurs loop.bound →
        ∀ s ∈ body, ¬ s.Changes isAny name) ∧
      (loop.bound ≠ .ident loop.name →
        ∀ (meaning : Meaning loop.bound body) (state : String → Int) (values : List Int),
          Rounds meaning loop.op loop.name loop.step state values ↔
            Counts loop.op (meaning.value state) loop.step (state loop.name) values)) := by
  rw [counting?_eq_ok_some_iff, leavesHeaderAlone_iff]
  refine ⟨Iff.rfl, fun accepted plain whole => ?_⟩
  have kept : ∀ name, name = loop.name ∨ (Expr.ident name).Occurs loop.bound →
      ∀ s ∈ body, ¬ s.Changes isAny name := by
    intro name read s member changes
    exact (accepted.2 name (read.imp_right (whole name)) s member).1 (plain s member name changes)
  refine ⟨kept, fun different meaning state values => ?_⟩
  have invariant : Invariant loop.name loop.bound body :=
    { variableKept := kept loop.name (.inl rfl)
      boundKept := fun other occurs => kept other (.inr occurs)
      apart := fun occurs => different (whole loop.name occurs) }
  exact invariant.rounds_iff_counts meaning

/-- `for (int i = 0; i < n; i++) s += i;` goes through 0, 1 and 2 if `n` is 3 at the start. -/
theorem summing_rounds :
    let start : Expr := .literal (.int "0")
    let add : Expr := .assign (.compound .add) (.ident "s") (.ident "i")
    let loop : Counting := ⟨"i", .int, start, .lt, .ident "n", 1⟩
    counting? (some (.declare "i" .int (some start)))
        (some (.compare .lt (.ident "i") (.ident "n"))) [.update .increment false (.ident "i")]
        [.expr add] = .ok (some loop) ∧
      ∀ (meaning : Meaning loop.bound [.expr add]) (state : String → Int),
        meaning.value state = 3 → state "i" = 0 → Rounds meaning .lt "i" 1 state [0, 1, 2] := by
  intro start add loop
  have accepted : counting? (some (.declare "i" .int (some start)))
      (some (.compare .lt (.ident "i") (.ident "n"))) [.update .increment false (.ident "i")]
      [.expr add] = .ok (some loop) := rfl
  have plain : ∀ s ∈ [Stmt.expr add], ∀ name,
      s.Changes isAny name → s.Changes isSeen name := by
    intro s member name changes
    obtain rfl := List.mem_singleton.mp member
    rcases (Stmt.changes_iff _).mp changes with ⟨place, direct, -, inside⟩ | ⟨part, direct, -⟩
    · obtain rfl := List.mem_singleton.mp direct
      rcases (Expr.changes_iff _).mp inside with change | ⟨place, direct, -, deeper⟩
      · exact .of_placed (List.mem_singleton_self _) rfl ⟨add, .here add, change⟩
      · simp only [add, Expr.placed, List.mem_cons, List.not_mem_nil, or_false] at direct
        rcases direct with rfl | rfl
        · exact (Expr.not_changes_ident "s" deeper).elim
        · exact (Expr.not_changes_ident "i" deeper).elim
    · cases direct
  have whole : ∀ name, (Expr.ident name).Occurs loop.bound → loop.bound = .ident name := by
    rintro name (_ | ⟨direct, _⟩)
    · rfl
    · cases direct
  obtain ⟨-, rounds⟩ :=
    (counting_iff_header_seen_unchanged _ _ _ _ loop).2 accepted plain whole
  refine ⟨accepted, fun meaning state three zero => ?_⟩
  refine (rounds (by simp [loop]) meaning state [0, 1, 2]).mpr ?_
  rw [three, show state loop.name = 0 from zero]
  exact .round rfl (.round rfl (.round rfl (.leave rfl)))

/-- In `for (int i = 0; i < n - 1; i++) n--;` a range over the first value of the bound goes through
0 to 3 if `n` is 5 at the start, and the loop goes through 0 and 1. -/
theorem shrinking_bound_accepted :
    let start : Expr := .literal (.int "0")
    let bound : Expr := .binary .sub (.ident "n") (.literal (.int "1"))
    let shrink : Stmt := .expr (.update .decrement false (.ident "n"))
    let loop : Counting := ⟨"i", .int, start, .lt, bound, 1⟩
    counting? (some (.declare "i" .int (some start))) (some (.compare .lt (.ident "i") bound))
        [.update .increment false (.ident "i")] [shrink] = .ok (some loop) ∧
      (Expr.ident "n").Occurs loop.bound ∧ shrink.Changes isSeen "n" ∧
      ∃ (meaning : Meaning loop.bound [shrink]) (state : String → Int),
        Rounds meaning .lt "i" 1 state [0, 1] ∧
        Counts .lt (meaning.value state) 1 (state "i") [0, 1, 2, 3] := by
  intro start bound shrink loop
  have inBound : (Expr.ident "n").Occurs bound := .part (List.mem_cons_self ..) (.here _)
  have changed : ∀ admitted : Position → Bool, admitted .plain = true →
      shrink.Changes admitted "n" :=
    fun _ opened => .of_placed (List.mem_singleton_self _) opened ⟨_, .here _, rfl⟩
  let meaning : Meaning bound [shrink] :=
    { run := fun state => Function.update state "n" (state "n" - 1)
      value := fun state => state "n" - 1
      kept := by
        intro name unchanged state
        have different : name ≠ "n" := by
          rintro rfl
          exact unchanged shrink (List.mem_singleton_self _) (changed _ rfl)
        exact Function.update_of_ne different ..
      determined := fun first second agree => by rw [agree "n" inBound] }
  refine ⟨rfl, inBound, changed _ rfl, meaning, fun name => if name = "n" then 5 else 0, ?_, ?_⟩
  · exact .round rfl (.round rfl (.leave rfl))
  · exact .round rfl (.round rfl (.round rfl (.round rfl (.leave rfl))))

end Python

end Retarget
