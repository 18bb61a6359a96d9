import Retarget.Proofs.LowerSound
import Retarget.Proofs.View

/-!
# The frame of a reading

Reading a statement off a syntax tree takes few kinds of steps: it asks the context, gives warnings,
declares names, and opens scopes that it leaves again. Where it may have no fault, it comes to an end
with a sound statement.
-/

namespace Retarget

open List (forall_mem_cons mem_cons_self mem_filter mem_map)
open Retarget.Symbol (array scalar sourceName)

variable {symbol : Symbol} {inside : String → Prop} {node : Node} {name : String}

namespace Scope

/-- A scope after declarations of some names, each of which adds or replaces an entry that keeps its
name. -/
inductive Grown (names : String → Prop) (scope : Scope) : Scope → Prop where
  | same : Grown names scope scope
  | insert {later : Scope} (grown : Grown names scope later) (symbol : Symbol)
      (named : names symbol.sourceName) (own : symbol.targetName = symbol.sourceName) :
      Grown names scope (later.insert symbol)

/-- Entries for the names may be new or other ones; all other entries are the same, and each name
that had an entry has one. -/
structure ChangedAt (names : List String) (scope later : Scope) : Prop where
  others : later.filter (·.sourceName ∉ names) = scope.filter (·.sourceName ∉ names)
  kept : scope.map sourceName ⊆ later.map sourceName

variable {names more : String → Prop} {scope between later : Scope}

theorem Grown.trans (first : Grown names scope between) (second : Grown names between later) :
    Grown names scope later := by
  induction second with
  | same => exact first
  | insert _ symbol named own ih => exact ih.insert symbol named own

theorem Grown.mono (grown : Grown names scope later) (wider : ∀ name, names name → more name) :
    Grown more scope later := by
  induction grown with
  | same => exact .same
  | insert _ symbol named own ih => exact ih.insert symbol (wider _ named) own

theorem Grown.eq (grown : Grown (fun _ => False) scope later) : later = scope := by
  cases grown with
  | same => rfl
  | insert _ _ named _ => exact named.elim

theorem filter_insert {names : List String} (named : symbol.sourceName ∈ names) (scope : Scope) :
    (scope.insert symbol).filter (·.sourceName ∉ names) = scope.filter (·.sourceName ∉ names) := by
  rw [Scope.insert, List.filter_cons_of_neg (by simpa using named), List.filter_filter]
  apply List.filter_congr
  intro other _
  by_cases same : other.sourceName = symbol.sourceName
  · simp [same, named]
  · simp [same]

theorem names_subset_insert (scope : Scope) (symbol : Symbol) :
    scope.map sourceName ⊆ (scope.insert symbol).map sourceName := by
  intro name member
  obtain ⟨other, present, rfl⟩ := mem_map.mp member
  by_cases same : other.sourceName = symbol.sourceName
  · simp [Scope.insert, same]
  · exact mem_map.mpr ⟨other, List.mem_cons_of_mem _ (mem_filter.mpr
      ⟨present, by simpa using same⟩), rfl⟩

theorem Grown.changedAt {names : List String} (grown : Grown (· ∈ names) scope later) :
    ChangedAt names scope later := by
  induction grown with
  | same => exact ⟨rfl, List.Subset.refl _⟩
  | insert _ symbol named _ ih =>
    constructor
    · rw [filter_insert named]
      exact ih.others
    · exact List.Subset.trans ih.kept (names_subset_insert _ symbol)

end Scope

/-- A context that a reading may leave behind which declares the names and began in `cx`. -/
structure Context.ReadFrame (names : String → Prop) (cx after : Context) : Prop where
  target : after.target = cx.target
  settings : after.settings = cx.settings
  indent : after.indent = cx.indent
  capabilities : after.capabilities = cx.capabilities
  outer : after.symbols.outer = cx.symbols.outer
  inner : Scope.Grown names cx.symbols.inner after.symbols.inner
  warnings : cx.warnings <+: after.warnings

namespace Context.ReadFrame

variable {names : String → Prop} {cx between after : Context}

theorem refl (cx : Context) : cx.ReadFrame names cx :=
  ⟨rfl, rfl, rfl, rfl, rfl, .same, List.prefix_rfl⟩

theorem trans (first : cx.ReadFrame names between) (second : between.ReadFrame names after) :
    cx.ReadFrame names after where
  target := second.target.trans first.target
  settings := second.settings.trans first.settings
  indent := second.indent.trans first.indent
  capabilities := second.capabilities.trans first.capabilities
  outer := second.outer.trans first.outer
  inner := first.inner.trans second.inner
  warnings := first.warnings.trans second.warnings

theorem warn (cx : Context) (message : String) : cx.ReadFrame names (cx.warn message) := by
  by_cases given : message ∈ cx.warnings
  · rw [show cx.warn message = cx from if_pos given]
    exact refl cx
  · rw [show cx.warn message = { cx with warnings := cx.warnings ++ [message] } from if_neg given]
    exact { refl cx with warnings := List.prefix_append _ _ }

theorem declare (cx : Context) (named : names symbol.sourceName)
    (own : symbol.targetName = symbol.sourceName) : cx.ReadFrame names (cx.declare symbol) :=
  ⟨rfl, rfl, rfl, rfl, rfl, .insert .same symbol named own, List.prefix_rfl⟩

/-- Leaving a scope puts the table back as it was, whatever was declared inside. -/
theorem inScope (within : cx.pushScope.ReadFrame inside between) :
    cx.ReadFrame names between.popScope := by
  have outer : between.symbols.outer = cx.symbols.inner :: cx.symbols.outer := within.outer
  have table : between.popScope.symbols = cx.symbols := by
    simp only [Context.popScope, SymbolTable.pop, outer]
  constructor
  · exact within.target
  · exact within.settings
  · exact within.indent
  · exact within.capabilities
  · rw [table]
  · rw [table]
    exact .same
  · exact within.warnings

end Context.ReadFrame

namespace Render

variable {α β γ δ : Type} {strict : Prop} {names more : String → Prop} {relates : α → β → Prop}
  {first : Render α} {second : Render β}

/-- Two computations put together from the same steps of a reading, which declare some names in the
scope that they begin in. From contexts with the same view they come to related values. Only if they
are not strict they may have a fault. -/
inductive Twins (strict : Prop) :
    {α β : Type} → (String → Prop) → (α → β → Prop) → Render α → Render β → Prop where
  | done {α β : Type} {names : String → Prop} {relates : α → β → Prop} {value : α} {twin : β}
      (related : relates value twin) : Twins strict names relates (.done value) (.done twin)
  | halt {α β : Type} {names : String → Prop} {relates : α → β → Prop} (fault : Fault)
      (allowed : ¬strict) : Twins strict names relates (.halt fault) (.halt fault)
  | read {α β : Type} {names : String → Prop} {relates : α → β → Prop} {next : Context → Render α}
      {others : Context → Render β} (steps : ∀ cx other, cx.symbols.view = other.symbols.view →
        Twins strict names relates (next cx) (others other)) :
      Twins strict names relates (.read next) (.read others)
  | warn {names : String → Prop} (message text : String) :
      Twins strict names (· = ·) (Render.warn message) (Render.warn text)
  | declare {names : String → Prop} {symbol twin : Symbol} (named : names symbol.sourceName)
      (own : symbol.targetName = symbol.sourceName) (name : symbol.sourceName = twin.sourceName)
      (profile : symbol.profile = twin.profile) :
      Twins strict names (· = ·) (Render.declare symbol) (Render.declare twin)
  | inScope {α β : Type} {names inside : String → Prop} {relates : α → β → Prop} {first : Render α}
      {second : Render β} (steps : Twins strict inside relates first second) :
      Twins strict names relates (Render.inScope first) (Render.inScope second)
  | bind {α β γ δ : Type} {names : String → Prop} {relates : α → β → Prop} {later : γ → δ → Prop}
      {first : Render α} {second : Render β} {rest : α → Render γ} {others : β → Render δ}
      (begun : Twins strict names relates first second)
      (next : ∀ value twin, relates value twin →
        Twins strict names later (rest value) (others twin)) :
      Twins strict names later (first >>= rest) (second >>= others)

/-- In a strict reading a value, the same on both sides, has a property. -/
def Sound (strict : Prop) (holds : α → Prop) (value twin : α) : Prop :=
  value = twin ∧ (strict → holds value)

namespace Twins

theorem mono (reading : Twins strict names relates first second)
    (wider : ∀ name, names name → more name) : Twins strict more relates first second := by
  induction reading with
  | done related => exact .done related
  | halt fault allowed => exact .halt fault allowed
  | read _ ih => exact .read fun cx other same => ih cx other same wider
  | warn message text => exact .warn message text
  | declare named own name profile => exact .declare (wider _ named) own name profile
  | inScope steps _ => exact .inScope steps
  | bind _ _ firstIh restIh =>
    exact .bind (firstIh wider) fun value twin related => restIh value twin related wider

theorem symbols :
    Twins strict names (fun table twin => table.view = twin.view) Render.symbols Render.symbols :=
  have asked : Twins strict names (fun cx other : Context => cx.symbols.view = other.symbols.view)
      (.read .done) (.read .done) := .read fun _ _ same => .done same
  .bind asked fun _ _ same => .done same

theorem ofExcept {result : Except Fault α} (ends : strict → ∃ value, result = .ok value) :
    Twins strict names (· = ·) (Render.ofExcept result) (Render.ofExcept result) := by
  cases result with
  | ok value => exact .done rfl
  | error fault => exact .halt fault fun must => by simpa using ends must

theorem frame (reading : Twins strict names relates first second) {cx after other ended : Context}
    {value : α} {twin : β} (same : cx.symbols.view = other.symbols.view)
    (ends : first.run cx = .ok (value, after)) (endsToo : second.run other = .ok (twin, ended)) :
    relates value twin ∧ after.symbols.view = ended.symbols.view ∧ cx.ReadFrame names after := by
  induction reading generalizing cx after other ended with
  | done related =>
    cases ends
    cases endsToo
    exact ⟨related, same, .refl cx⟩
  | halt _ _ => cases ends
  | read _ ih => exact ih cx other same same ends endsToo
  | warn message text =>
    cases ends
    cases endsToo
    refine ⟨rfl, ?_, .warn cx message⟩
    rw [Context.symbols_warn, Context.symbols_warn]
    exact same
  | declare named own name profile =>
    cases ends
    cases endsToo
    exact ⟨rfl, SymbolTable.view_declare same name profile, .declare cx named own⟩
  | inScope _ ih =>
    obtain ⟨between, inside, rfl⟩ := run_inScope_eq_ok ends
    obtain ⟨meanwhile, insideToo, rfl⟩ := run_inScope_eq_ok endsToo
    obtain ⟨related, sameInside, frame⟩ := ih (SymbolTable.view_push same) inside insideToo
    exact ⟨related, SymbolTable.view_pop sameInside, .inScope frame⟩
  | bind _ _ firstIh restIh =>
    obtain ⟨middle, between, firstRun, restRun⟩ := bind_eq_ok.mp ends
    obtain ⟨mate, meanwhile, secondRun, othersRun⟩ := bind_eq_ok.mp endsToo
    obtain ⟨related, sameBetween, frame⟩ := firstIh same firstRun secondRun
    obtain ⟨relatedToo, sameAfter, later⟩ := restIh _ _ related sameBetween restRun othersRun
    exact ⟨relatedToo, sameAfter, frame.trans later⟩

theorem terminates (must : strict) (reading : Twins strict names relates first second)
    (cx other : Context) (same : cx.symbols.view = other.symbols.view) :
    (∃ reached, first.run cx = .ok reached) ∧ ∃ reached, second.run other = .ok reached := by
  induction reading generalizing cx other with
  | done _ | warn _ _ | declare _ _ _ _ => exact ⟨⟨_, rfl⟩, ⟨_, rfl⟩⟩
  | halt _ allowed => exact (allowed must).elim
  | read _ ih => exact ih cx other same cx other same
  | inScope _ ih =>
    obtain ⟨⟨reached, run⟩, meanwhile, twin⟩ :=
      ih cx.pushScope other.pushScope (SymbolTable.view_push same)
    rw [run_inScope, run_inScope, run, twin]
    exact ⟨⟨_, rfl⟩, ⟨_, rfl⟩⟩
  | bind begun _ firstIh restIh =>
    obtain ⟨⟨⟨value, between⟩, run⟩, ⟨twin, meanwhile⟩, runToo⟩ := firstIh cx other same
    obtain ⟨related, sameBetween, -⟩ := begun.frame same run runToo
    obtain ⟨⟨reached, ends⟩, final, endsToo⟩ :=
      restIh value twin related between meanwhile sameBetween
    exact ⟨⟨reached, bind_eq_ok.mpr ⟨value, between, run, ends⟩⟩,
      ⟨final, bind_eq_ok.mpr ⟨twin, meanwhile, runToo, endsToo⟩⟩⟩

theorem ends {holds : α → Prop} {room : Nat}
    (reading : Twins True names (Sound True holds) first first) : first.Ends room holds := by
  intro cx _
  obtain ⟨⟨⟨value, after⟩, run⟩, -⟩ := reading.terminates trivial cx cx rfl
  obtain ⟨⟨-, fact⟩, -, frame⟩ := reading.frame rfl run run
  exact ⟨value, after, run, frame.indent, frame.settings, fact trivial⟩

end Twins

end Render

namespace Trial

variable {ε α β γ δ : Type} {strict : Prop} {names : String → Prop}

/-- Two results that are related values or one and the same error. -/
inductive Matches (relates : α → β → Prop) : Except ε α → Except ε β → Prop where
  | ok {value : α} {twin : β} (related : relates value twin) :
      Matches relates (.ok value) (.ok twin)
  | error (error : ε) : Matches relates (.error error) (.error error)

/-- Two computations that may stop with an error, put together from the same steps of a reading. -/
def Alike (strict : Prop) (names : String → Prop) (relates : α → β → Prop) (first : Trial ε α)
    (second : Trial ε β) : Prop :=
  Render.Twins strict names (Matches relates) first.run second.run

namespace Alike

variable {relates : α → β → Prop} {later : γ → δ → Prop}

theorem pure {value : α} {twin : β} (related : relates value twin) :
    Alike strict names relates (pure value : Trial ε α) (pure twin) :=
  Render.Twins.done (.ok related)

theorem bind {first : Trial ε α} {second : Trial ε β} {rest : α → Trial ε γ}
    {others : β → Trial ε δ} (begun : Alike strict names relates first second)
    (next : ∀ value twin, relates value twin → Alike strict names later (rest value) (others twin)) :
    Alike strict names later (first >>= rest) (second >>= others) := by
  refine Render.Twins.bind begun fun result twin related => ?_
  cases related with
  | ok related => exact next _ _ related
  | error error => exact Render.Twins.done (.error error)

theorem lift {first : Render α} {second : Render β}
    (alike : first.Twins strict names relates second) :
    Alike strict names relates (liftM first : Trial ε α) (liftM second) :=
  Render.Twins.bind alike fun _ _ related => .done (.ok related)

end Alike

/-- A computation that from contexts with the same view comes to the same value or error. In a strict
reading the value has a property. -/
def Reads (strict : Prop) (names : String → Prop) (trial : Trial ε α) (holds : α → Prop) : Prop :=
  Alike strict names (Render.Sound strict holds) trial trial

namespace Reads

variable {holds : α → Prop} {later : β → Prop}

theorem pure {value : α} (fact : strict → holds value) :
    Reads strict names (pure value : Trial ε α) holds :=
  Alike.pure ⟨rfl, fact⟩

theorem bind {first : Trial ε α} {rest : α → Trial ε β} (begun : Reads strict names first holds)
    (next : ∀ value, (strict → holds value) → Reads strict names (rest value) later) :
    Reads strict names (first >>= rest) later :=
  Alike.bind begun fun _ _ sound => sound.1 ▸ next _ sound.2

theorem inScope {inside : String → Prop} {body : Trial ε α} (reads : Reads strict inside body holds) :
    Reads strict names (ExceptT.mk (Render.inScope body.run)) holds :=
  Render.Twins.inScope reads

theorem mono {trial : Trial ε α} {wider : α → Prop} (reads : Reads strict names trial holds)
    (weaker : ∀ value, holds value → wider value) : Reads strict names trial wider :=
  (bind_pure trial) ▸ reads.bind fun _ fact => .pure fun must => weaker _ (fact must)

theorem lift {rendering : Render α}
    (reading : rendering.Twins strict names (Render.Sound strict holds) rendering) :
    Reads strict names (liftM rendering : Trial ε α) holds :=
  Alike.lift reading

theorem mapM {f : α → Trial ε β} {xs : List α} (reads : ∀ x ∈ xs, Reads strict names (f x) later) :
    Reads strict names (xs.mapM f) fun ys => ∀ y ∈ ys, later y := by
  induction xs with
  | nil => exact .pure fun _ => nofun
  | cons x xs ih =>
    obtain ⟨first, others⟩ := forall_mem_cons.mp reads
    rw [List.mapM_cons]
    exact first.bind fun _ fact => (ih others).bind fun _ facts => .pure fun must =>
      forall_mem_cons.mpr ⟨fact must, facts must⟩

end Reads

end Trial

def Node.declaratorNames (node : Node) : List String :=
  (node.childrenIn "declarator").filterMap fun part => (part.child? "name").map Node.text

theorem Node.child_of_textOf {field : String} (isText : node.textOf field = .ok name) :
    ∃ part, node.child? field = some part ∧ part.text = name := by
  unfold textOf childIn at isText
  split at isText
  next part found =>
    cases isText
    exact ⟨part, found, rfl⟩
  next => cases isText

namespace Lower

open Node (nodesOf)
open Text (maxInteger)
open Trial (Alike Reads)

def ArrayValue.Tame (value : ArrayValue) : Prop :=
  ∀ e ∈ value.init.exprs, e.Tame

section Parts

variable {strict : Prop} {names : String → Prop} {room : Nat}

theorem ofExcept_regular {α : Type} {holds : α → Prop} {result : Except LoweringError α}
    (carries : strict → Carries result holds) : Reads strict names (ofExcept result) holds := by
  cases result with
  | ok value => exact .pure fun must => carries must value rfl
  | error error => exact .done (.error error)

theorem ofExcept_bind_reads {α β : Type} {result : Except LoweringError α} {rest : α → Lower β}
    {holds : β → Prop} (next : ∀ value, result = .ok value → Reads strict names (rest value) holds) :
    Reads strict names (ofExcept result >>= rest) holds := by
  cases result with
  | ok value => exact next value rfl
  | error error => exact .done (.error error)

theorem fail_regular {α : Type} {holds : α → Prop} (error : LoweringError) :
    Reads strict names (fail error : Lower α) holds :=
  Render.Twins.done (.error error)

theorem warn_regular (message : String) : Reads strict names (warn message) fun _ => True :=
  Alike.bind (.lift (.warn message message)) fun _ _ _ => .pure ⟨rfl, fun _ => trivial⟩

theorem warned_alike {α : Type} {relates : α → α → Prop} {p : Prop} [Decidable p] {message : String}
    {first second : Lower α} (alike : Alike strict names relates first second) :
    Alike strict names relates (if p then warn message >>= fun _ => first else first)
      (if p then warn message >>= fun _ => second else second) := by
  split
  · exact .bind (warn_regular _) fun _ _ _ => alike
  · exact alike

theorem symbols_alike :
    Alike strict names (fun table twin => table.view = twin.view) symbols symbols :=
  .lift .symbols

/-- Two array values that differ in the extent and the alias at most. -/
def SameInit (strict : Prop) (value twin : ArrayValue) : Prop :=
  value.init = twin.init ∧ (strict → value.Tame)

theorem literalValue_alike {node : Node} (small : strict → Small maxInteger node.nodes) :
    Alike strict names (SameInit strict) (do return literalValue (← ofExcept (itemsOf node)))
      (do return literalValue (← ofExcept (itemsOf node))) :=
  Alike.bind (ofExcept_regular fun must => (reading_within node (small must)).2) fun _ _ sound =>
    .pure ⟨by rw [sound.1], fun must => Expr.allWithin_iff.mp (sound.2 must)⟩

theorem creationValue_alike {value : Node} (small : strict → Small maxInteger value.nodes) :
    Alike strict names (SameInit strict) (creationValue value) (creationValue value) := by
  unfold creationValue
  split
  next literal found =>
    exact literalValue_alike fun must => (small must).mono fun _ => Node.mem_nodes_of_child? found
  next =>
    have sizes (must : strict) : Carries (extents value.children) fun found =>
        ∀ e ∈ found, e.Within maxInteger := extents_within (small must).below
    refine .bind (ofExcept_regular sizes) ?_
    rintro found _ ⟨rfl, within⟩
    refine .bind (.lift (.ofExcept ?_)) fun size twin _ => .pure ⟨rfl, within⟩
    intro must
    cases found with
    | nil => exact ⟨none, rfl⟩
    | cons first rest =>
      obtain ⟨value, found⟩ := Expr.Tame.literalInteger (within must first mem_cons_self)
      exact ⟨_, by rw [outerExtent, found]; rfl⟩

theorem cloneValue_alike {value : Node} (small : strict → Small maxInteger value.nodes) :
    Alike strict names (SameInit strict) (cloneValue value) (cloneValue value) := by
  refine .bind (ofExcept_regular fun must => exprOf_within "object" (small must)) ?_
  rintro source _ ⟨rfl, within⟩
  refine symbols_alike.bind fun table other same => .pure ⟨rfl, fun must e member => ?_⟩
  exact List.mem_singleton.mp member ▸ within must

theorem aliasValue_alike {value : Node} (small : strict → Small maxInteger value.nodes) :
    Alike strict names (SameInit strict) (aliasValue value) (aliasValue value) := by
  refine .bind (ofExcept_regular fun must => expr_within value (small must)) ?_
  rintro source _ ⟨rfl, within⟩
  have tame (must : strict) : ∀ e ∈ [source], e.Tame :=
    fun e member => List.mem_singleton.mp member ▸ within must
  refine symbols_alike.bind fun table other same => ?_
  obtain ⟨absent, alsoAbsent⟩ | ⟨symbol, twin, found, alsoFound, -⟩ :=
    SymbolTable.arrayNamed_of_view same source
  · rw [absent, alsoAbsent]
    exact .bind (warn_regular _) fun _ _ _ => .pure ⟨rfl, tame⟩
  · rw [found, alsoFound]
    exact .pure ⟨rfl, tame⟩

theorem arrayValue_alike {value : Node} (small : strict → Small maxInteger value.nodes) :
    Alike strict names (SameInit strict) (arrayValue value) (arrayValue value) := by
  unfold arrayValue
  split
  · exact literalValue_alike small
  · exact creationValue_alike small
  · split
    · exact cloneValue_alike small
    · exact aliasValue_alike small

theorem arrayDeclarator_regular (named : names name) (element : ValueType) (dimensions : Nat)
    {value : Option Node}
    (small : strict → ∀ node, value = some node → Small maxInteger node.nodes) :
    Reads strict names (arrayDeclarator name element dimensions value) (Stmt.Sound room) := by
  have declared {found twin : ArrayValue} (same : SameInit strict found twin) :
      Alike strict names (Render.Sound strict (Stmt.Sound room))
      (do
        declare { array name element dimensions found.size with aliasOf := found.aliasOf }
        return Stmt.declareArray name element dimensions found.init : Lower Stmt)
      (do
        declare { array name element dimensions twin.size with aliasOf := twin.aliasOf }
        return Stmt.declareArray name element dimensions twin.init) :=
    Alike.bind (.lift (.declare named rfl rfl rfl)) fun _ _ _ =>
      .pure ⟨by rw [same.1], same.2⟩
  have absent : SameInit strict { init := .absent, size := none } { init := .absent, size := none } :=
    ⟨rfl, fun _ => nofun⟩
  cases value with
  | none => exact warned_alike (declared absent)
  | some node =>
    have found : Alike strict names (SameInit strict) (arrayValue node) (arrayValue node) :=
      arrayValue_alike fun must => small must node rfl
    exact warned_alike (found.bind fun _ _ same => declared same)

theorem scalarType_regular (typeName name : String) (init : Option Expr) :
    Reads strict names (scalarType typeName name init) fun _ => True := by
  have settled (type : ValueType) (message : String) : Reads strict names
      (if type = .unknown then warn message >>= fun _ => pure type
        else pure type : Lower ValueType) fun _ => True :=
    warned_alike (.pure ⟨rfl, fun _ => trivial⟩)
  unfold scalarType
  split
  · refine symbols_alike.bind fun table other same => ?_
    have inferred : init.map table.typeOf = init.map other.typeOf := by
      cases init with
      | none => rfl
      | some e => exact congrArg some (SymbolTable.typeOf_of_view same e)
    rw [inferred]
    exact settled _ _
  · exact settled _ _

theorem scalarDeclarator_regular (typeName : String) (named : names name) {value : Option Node}
    (small : strict → ∀ node, value = some node → Small maxInteger node.nodes) :
    Reads strict names (scalarDeclarator typeName name value) (Stmt.Sound room) := by
  have declared {init : Option Expr} (tame : strict → ∀ e, init = some e → e.Tame) :
      Reads strict names (do
        let type ← scalarType typeName name init
        declare (scalar name type)
        return Stmt.declare name type init : Lower Stmt) (Stmt.Sound room) :=
    (scalarType_regular typeName name init).bind fun type _ =>
      Alike.bind (Alike.lift (.declare named rfl rfl rfl)) fun _ _ _ => .pure ⟨rfl, tame⟩
  cases value with
  | none => exact declared fun _ => nofun
  | some node =>
    refine (ofExcept_regular fun must => expr_within node (small must node rfl)).bind
      fun e within => declared ?_
    rintro must _ ⟨⟩
    exact within must

theorem declarator_regular (typeName : String) (typeRank : Nat)
    (named : ∀ part, node.child? "name" = some part → names part.text)
    (small : strict → Small maxInteger node.nodes) :
    Reads strict names (declarator typeName typeRank node) (Stmt.Sound room) := by
  have value (must : strict) (found : Node) (same : node.child? "value" = some found) :
      Small maxInteger found.nodes :=
    (small must).mono fun _ => Node.mem_nodes_of_child? same
  apply ofExcept_bind_reads
  intro name isName
  have itsName : names name := by
    obtain ⟨part, found, rfl⟩ := Node.child_of_textOf isName
    exact named part found
  dsimp only
  split
  · exact arrayDeclarator_regular itsName _ _ value
  · split
    · exact ofExcept_bind_reads fun element _ => arrayDeclarator_regular itsName _ _ value
    · exact scalarDeclarator_regular _ itsName value

theorem localDeclaration_regular (named : ∀ name ∈ node.declaratorNames, names name)
    (small : strict → Small maxInteger node.nodes) :
    Reads strict names (localDeclaration node) (Stmt.Sound room) := by
  refine ofExcept_bind_reads fun written _ => ?_
  have each : Reads strict names
      ((node.childrenIn "declarator").mapM (declarator written.1 written.2))
      fun parts => ∀ part ∈ parts, part.Sound room := by
    refine .mapM fun part member => declarator_regular _ _ ?_ fun must => (small must).mono ?_
    · intro nameNode found
      exact named _ (List.mem_filterMap.mpr ⟨part, member, congrArg (Option.map Node.text) found⟩)
    · obtain ⟨info, children⟩ := node
      exact fun _ below =>
        List.mem_cons_of_mem _ (Node.mem_nodesOf.mpr ⟨_, (mem_filter.mp member).1, below⟩)
  refine each.bind fun parts sound => ?_
  split
  · exact fail_regular _
  next single => exact .pure fun must => sound must single mem_cons_self
  next several _ _ => exact .pure fun must => allSound_iff.mpr (sound must)

theorem print_regular (small : strict → Small maxInteger node.nodes) :
    Reads strict names (print node) (Stmt.Sound room) := by
  have items (must : strict) :
      Carries ((itemsIn "arguments" node.children).getD (.ok [])) (Expr.AllWithin maxInteger) :=
    carries_getD (fun _ => itemsIn_within (children_within (small must).below)) (.ok trivial)
  refine ofExcept_bind_reads fun method _ => ofExcept_bind_reads fun stream _ => ?_
  have printed : Reads strict names (do
      let args ← ofExcept ((itemsIn "arguments" node.children).getD (.ok []))
      let formatted := method = "printf" || method = "format"
      if formatted && args.isEmpty then fail (.parse (method ++ " without a format string"))
      else return Stmt.print { args, newline := method = "println", formatted } : Lower Stmt)
      (Stmt.Sound room) := by
    refine (ofExcept_regular items).bind fun args within => ?_
    dsimp only
    split
    · exact fail_regular _
    · exact .pure fun must => Expr.allWithin_iff.mp (within must)
  exact warned_alike printed

theorem expressionStatement_regular {info : NodeInfo} {children : List Node}
    (below : strict → Small maxInteger (nodesOf children)) :
    Reads strict names (expressionStatement (.mk info children)) (Stmt.Sound room) := by
  unfold expressionStatement
  split
  · exact fail_regular _
  next child _ listed =>
    have member : child ∈ children := by
      have named : child ∈ (Node.mk info children).namedChildren := listed ▸ mem_cons_self
      exact (mem_filter.mp named).1
    have small (must : strict) : Small maxInteger child.nodes :=
      (below must).mono fun _ below => Node.mem_nodesOf.mpr ⟨_, member, below⟩
    split
    · exact print_regular small
    · exact (ofExcept_regular fun must => expr_within child (small must)).bind fun _ within =>
        .pure within

theorem returnStatement_regular (node : Node) :
    Reads strict names (returnStatement node) (Stmt.Sound room) := by
  unfold returnStatement
  split
  · exact ofExcept_bind_reads fun _ _ => .pure fun _ => trivial
  · exact .pure fun _ => trivial

theorem exprs_regular {nodes : List Node}
    (small : strict → ∀ node ∈ nodes, Small maxInteger node.nodes) :
    Reads strict names (nodes.mapM fun e => ofExcept (expr e)) fun found => ∀ e ∈ found, e.Tame :=
  .mapM fun node member => ofExcept_regular fun must => expr_within node (small must node member)

theorem forInit_regular {inits : List Node}
    (small : strict → ∀ node ∈ inits, Small maxInteger node.nodes) :
    Reads strict (fun _ => True) (forInit inits) (SoundPart room) := by
  unfold forInit
  split
  · exact .pure fun _ => trivial
  next single =>
    have tame (must : strict) := small must single mem_cons_self
    split
    · exact (localDeclaration_regular (fun _ _ => trivial) tame).bind fun _ sound => .pure sound
    · exact (ofExcept_regular fun must => expr_within single (tame must)).bind fun _ within =>
        .pure within
  next =>
    refine (exprs_regular small).bind fun found tame => .pure fun must => ?_
    refine allSound_iff.mpr fun stmt member => ?_
    obtain ⟨e, listed, rfl⟩ := mem_map.mp member
    exact tame must e listed

theorem mem_of_loopHeader? {parts : List Node} {type name iterable : Node}
    (found : loopHeader? parts = some (type, name, iterable)) : iterable ∈ parts := by
  unfold loopHeader? at found
  split at found
  next reversed =>
    cases found
    rw [← List.mem_reverse, reversed]
    exact List.mem_cons_of_mem _ mem_cons_self
  next => cases found

theorem kept_reading (info : NodeInfo) {reading : Lower (Option Stmt)}
    (reads : Reads strict names reading (SoundPart room)) :
    (kept info reading).Twins strict names (Render.Sound strict (SoundPart room))
      (kept info reading) := by
  refine .bind reads fun result twin related => ?_
  cases related with
  | ok sound => exact .done sound
  | error error => exact (Render.Twins.warn _ _).bind fun _ _ _ => .done ⟨rfl, fun _ => trivial⟩

theorem loopSymbol_own (name : String) (type : ValueType) (source : Option Symbol) :
    (loopSymbol name type source).targetName = (loopSymbol name type source).sourceName := by
  cases source with
  | none => rfl
  | some symbol =>
    unfold loopSymbol
    dsimp only
    split
    · rfl
    · rfl

theorem loopType_of_profile (type : Node) {symbol twin : Symbol}
    (profile : symbol.profile = twin.profile) :
    loopType type (some symbol) = loopType type (some twin) := by
  have element : symbol.element? = twin.element? := congrArg Profile.element? profile
  simp only [loopType, element]

theorem loopSymbol_of_profile (name : String) (type : ValueType) {symbol twin : Symbol}
    (profile : symbol.profile = twin.profile) :
    loopSymbol name type (some symbol) = loopSymbol name type (some twin) := by
  have dimensions : symbol.dimensions = twin.dimensions := congrArg Profile.dimensions profile
  simp only [loopSymbol, dimensions]

theorem forEach_regular (typeNode nameNode : Node) {iterableNode : Node} {body : Lower (List Stmt)}
    (tame : strict → Carries (expr iterableNode) Expr.Tame)
    (reads : Reads strict (fun _ => True) body (AllSound room)) : Reads strict names (do
      let iterable ← ofExcept (expr iterableNode)
      let source := (iterable.ident?.bind (← symbols).lookup).filter Symbol.isArray
      let type := loopType typeNode source
      let body ← inScope do
        declare (loopSymbol nameNode.text type source)
        body
      return some (.forEach type nameNode.text iterable body) : Lower (Option Stmt))
      (SoundPart (room + 1)) := by
  have looped {iterable : Expr} (within : strict → iterable.Tame) (type : ValueType)
      (source : Option Symbol) : Reads strict names (do
        let body ← inScope do
          declare (loopSymbol nameNode.text type source)
          body
        return some (.forEach type nameNode.text iterable body) : Lower (Option Stmt))
        (SoundPart (room + 1)) := by
    have declared : Reads strict (fun _ => True) (do
        declare (loopSymbol nameNode.text type source)
        body) (AllSound room) :=
      Alike.bind (Alike.lift (.declare True.intro (loopSymbol_own nameNode.text type source) rfl
        rfl)) fun _ _ _ => reads
    exact (Reads.inScope declared).bind fun _ sound => .pure fun must =>
      ⟨within must, Nat.le_add_left 1 room, sound must⟩
  refine Alike.bind (ofExcept_regular tame) ?_
  rintro iterable _ ⟨rfl, within⟩
  refine symbols_alike.bind fun table other same => ?_
  dsimp only
  obtain ⟨absent, alsoAbsent⟩ | ⟨symbol, twin, found, alsoFound, profile⟩ :=
    SymbolTable.arrayNamed_of_view same iterable
  · rw [absent, alsoAbsent]
    exact looped within _ _
  · rw [found, alsoFound, loopType_of_profile typeNode profile, loopSymbol_of_profile _ _ profile]
    exact looped within _ _

end Parts

variable {strict : Prop}

def LeavesName (node : Node) (name : String) : Prop :=
  node.kind = "local_variable_declaration" ∧ name ∈ node.declaratorNames

def SoundRest (room : Nat) (parts : List Branch × Option (List Stmt)) : Prop :=
  SoundBranches room parts.1 ∧ ∀ block, parts.2 = some block → AllSound room block

def SoundCase (room : Nat) (parts : List SwitchLabel × List Stmt) : Prop :=
  TameLabels parts.1 ∧ AllSound room parts.2

/-- All that a node may be read as is regular. -/
structure Regular (strict : Prop) (room : Nat) (node : Node) : Prop where
  fit : Fits strict room node
  statement : Reads strict (LeavesName node) (statement node) (SoundPart room)
  block : (blockOf node).Twins strict (fun _ => True) (Render.Sound strict (AllSound room))
    (blockOf node)
  branch (names : String → Prop) : Reads strict names (branchOf node) (SoundRest room)
  cases (names : String → Prop) : Reads strict names (casesOf node) (SoundCases room)
  group : Reads strict (fun _ => True) (groupOf node) (SoundCase room)
  rule : Reads strict (fun _ => True) (ruleOf node) (SoundCase room)

section Children

variable {room : Nat} {names : String → Prop} {child : Node} {children : List Node}

theorem Regular.kept (regular : Regular strict room child) :
    (Lower.kept child.info (.statement child)).Twins strict (fun _ => True)
      (Render.Sound strict (SoundPart room)) (Lower.kept child.info (Lower.statement child)) :=
  (kept_reading child.info regular.statement).mono fun _ _ => True.intro

theorem Regular.body (regular : Regular strict room child) : Reads strict names
    (bodyOf child.info (fun _ => Lower.statement child) fun _ => blockOf child) (AllSound room) := by
  apply Reads.inScope
  split
  · exact .lift regular.block
  · exact (Reads.lift regular.kept).bind fun _ sound => .pure fun must => (sound must).toList

variable (each : ∀ child ∈ children, Regular strict room child)

include each

theorem block_reading : (block children).Twins strict (fun _ => True)
    (Render.Sound strict (AllSound room)) (block children) := by
  induction children with
  | nil => exact .done ⟨rfl, fun _ => trivial⟩
  | cons child rest ih =>
    obtain ⟨first, others⟩ := forall_mem_cons.mp each
    rw [block]
    split
    · refine first.kept.bind ?_
      rintro part _ ⟨rfl, sound⟩
      refine (ih others).bind ?_
      rintro later _ ⟨rfl, restSound⟩
      exact .done ⟨rfl, fun must => allSound_append.mpr ⟨(sound must).toList, restSound must⟩⟩
    · exact ih others

theorem bodyIn_regular (field : String) (error : LoweringError) :
    Reads strict names ((bodyIn field children).getD (fail error)) fun body =>
      1 ≤ room ∧ AllSound room body := by
  induction children with
  | nil => exact fail_regular error
  | cons child rest ih =>
    obtain ⟨first, others⟩ := forall_mem_cons.mp each
    rw [bodyIn]
    split
    · exact .mono first.body fun _ sound => ⟨first.fit.positive, sound⟩
    · exact ih others

theorem lastBody_regular {body : Lower (List Stmt)} (found : lastBody children = some body) :
    Reads strict names body (AllSound room) := by
  induction children with
  | nil => cases found
  | cons child rest ih =>
    obtain ⟨first, others⟩ := forall_mem_cons.mp each
    rw [lastBody] at found
    split at found
    next later =>
      cases found
      exact ih others later
    next =>
      split at found
      · cases found
        exact first.body
      · cases found

theorem alternatives_regular : Reads strict names (alternatives children) (SoundRest room) := by
  induction children with
  | nil => exact .pure fun _ => ⟨trivial, nofun⟩
  | cons child rest ih =>
    obtain ⟨first, others⟩ := forall_mem_cons.mp each
    rw [alternatives]
    split
    · split
      · exact first.branch names
      · refine first.body.bind fun body sound => .pure fun must => ⟨trivial, ?_⟩
        rintro _ ⟨⟩
        exact sound must
    · exact ih others

theorem casesIn_regular (error : LoweringError) :
    Reads strict names ((casesIn children).getD (fail error)) (SoundCases room) := by
  induction children with
  | nil => exact fail_regular error
  | cons child rest ih =>
    obtain ⟨first, others⟩ := forall_mem_cons.mp each
    rw [casesIn]
    split
    · exact first.cases names
    · exact ih others

theorem cases_regular {list : CaseList} (sound : strict → list.Sound room) :
    Reads strict (fun _ => True) (cases list children) (CaseList.Sound room) := by
  induction children generalizing list with
  | nil => exact .pure sound
  | cons child rest ih =>
    obtain ⟨first, others⟩ := forall_mem_cons.mp each
    rw [cases]
    split
    · exact ih others sound
    · split
      · exact first.group.bind fun parts read => ih others
          fun must => (sound must).addGroup (read must).1 (read must).2
      · split
        · exact first.rule.bind fun parts read => ih others
            fun must => (sound must).addRule (read must).1 (read must).2
        · split
          · exact ih others fun must => (sound must).addComment trivial
          · exact fail_regular _

theorem groupParts_regular :
    Reads strict (fun _ => True) (groupParts children) (SoundCase room) := by
  induction children with
  | nil => exact .pure fun _ => ⟨nofun, trivial⟩
  | cons child rest ih =>
    obtain ⟨first, others⟩ := forall_mem_cons.mp each
    have later := ih others
    rw [groupParts]
    split
    · exact later
    · split
      · refine (ofExcept_regular fun must => labelsOf_tame (first.fit.small must)).bind
          fun labels tame => later.bind fun parts sound => .pure fun must => ?_
        exact ⟨tameLabels_append.mpr ⟨tame must, (sound must).1⟩, (sound must).2⟩
      · refine (Reads.lift first.kept).bind fun stmt stmtSound => later.bind fun parts sound =>
          .pure fun must => ?_
        exact ⟨(sound must).1, allSound_append.mpr ⟨(stmtSound must).toList, (sound must).2⟩⟩

theorem ruleParts_regular {labels : List SwitchLabel} (tame : strict → TameLabels labels)
    {body : List Stmt} (sound : strict → AllSound room body) :
    Reads strict names (ruleParts labels body children) (SoundCase room) := by
  induction children generalizing labels body with
  | nil => exact .pure fun must => ⟨tame must, sound must⟩
  | cons child rest ih =>
    obtain ⟨first, others⟩ := forall_mem_cons.mp each
    rw [ruleParts]
    split
    · exact ih others tame sound
    · split
      · exact (ofExcept_regular fun must => labelsOf_tame (first.fit.small must)).bind
          fun more moreTame =>
            ih others (fun must => tameLabels_append.mpr ⟨tame must, moreTame must⟩) sound
      · split
        · exact ih others tame fun must => allSound_append.mpr ⟨sound must, trivial, trivial⟩
        · exact first.body.bind fun read readSound => ih others tame readSound

end Children

theorem statement_regular {inner : Nat} {info : NodeInfo} {children : List Node}
    (fit : Fits strict (inner + 1) (.mk info children))
    (each : ∀ child ∈ children, Regular strict (inner + 1) child)
    (inside : ∀ child ∈ children, Regular strict inner child) : Reads strict
      (LeavesName (.mk info children)) (statement (.mk info children)) (SoundPart (inner + 1)) := by
  have below := fit.below
  have positive : 1 ≤ inner + 1 := Nat.le_add_left 1 inner
  have operand {names : String → Prop} (field : String) :
      Reads strict names (ofExcept (exprOf (.mk info children) field)) Expr.Tame :=
    ofExcept_regular fun must => exprOf_within field (fit.small must)
  have body {names : String → Prop} (field : String) (error : LoweringError) :
      Reads strict names ((bodyIn field children).getD (fail error)) fun body =>
        1 ≤ inner ∧ AllSound inner body :=
    bodyIn_regular inside field error
  rw [statement]
  split
  case h_1 | h_2 | h_3 | h_13 | h_14 | h_17 | h_18 | h_19 => exact .pure fun _ => trivial
  next isDeclaration =>
    exact (localDeclaration_regular (fun name member => ⟨isDeclaration, member⟩) fit.small).bind
      fun _ sound => .pure sound
  · exact (expressionStatement_regular below.small).bind fun _ sound => .pure sound
  · refine (operand _).bind fun condition tame => (body _ _).bind fun block sound => ?_
    refine (alternatives_regular inside).bind fun rest restSound => .pure fun must => ?_
    obtain ⟨elifs, otherwise⟩ := rest
    obtain ⟨elifsSound, restSound⟩ := restSound must
    cases otherwise with
    | none => exact ⟨tame must, positive, (sound must).2, elifsSound, trivial⟩
    | some block =>
      exact ⟨tame must, positive, (sound must).2, elifsSound, restSound block rfl⟩
  case h_7 | h_8 =>
    refine (operand _).bind fun discriminant tame => ?_
    exact (casesIn_regular inside _).bind fun cases sound => .pure fun must =>
      ⟨tame must, positive, sound must⟩
  next loop =>
    have clause (field : String) (must : strict) : ∀ node ∈ (Node.mk info children).childrenIn field,
        Small maxInteger node.nodes :=
      fun node member => (below.mem (mem_filter.mp member).1).small must
    have first : Reads strict (fun _ => True) (forInit ((Node.mk info children).childrenIn "init"))
        (SoundPart (inner + 1)) := forInit_regular (clause "init")
    refine .inScope (first.bind fun init initSound => ?_)
    have looped {condition : Option Expr}
        (bounding : strict → ∀ e, condition = some e → e.Bounding) :
        Reads strict (fun _ => True) (do
          let update ← ((Node.mk info children).childrenIn "update").mapM fun e =>
            ofExcept (expr e)
          let body ← (bodyIn "body" children).getD
            (fail ((Node.mk info children).missing "body"))
          return some (.forLoop init condition update body) : Lower (Option Stmt))
          (SoundPart (inner + 1)) := by
      refine (exprs_regular (clause "update")).bind fun update tame => ?_
      refine (body _ _).bind fun block sound => .pure fun must => ?_
      have first := initSound must
      cases init with
      | none => exact ⟨trivial, bounding must, tame must, positive, (sound must).2⟩
      | some stmt => exact ⟨first, bounding must, tame must, positive, (sound must).2⟩
    split
    next condition found =>
      refine (ofExcept_regular (fit.condition loop found)).bind fun e bounding => looped ?_
      rintro must _ ⟨⟩
      exact bounding must
    next => exact looped fun _ => nofun
  · split
    next header found =>
      refine forEach_regular _ _ (fun must => expr_within _ ?_) (lastBody_regular inside found)
      exact (below.mem (mem_filter.mp (mem_of_loopHeader? header)).1).small must
    next => exact fail_regular _
  · exact (operand _).bind fun condition tame => (body _ _).bind fun block sound => .pure
      fun must => ⟨tame must, positive, (sound must).2⟩
  · exact (body _ _).bind fun block sound => (operand _).bind fun condition tame => .pure
      fun must => ⟨tame must, Nat.succ_le_succ (sound must).1, (sound must).2⟩
  · exact (returnStatement_regular _).bind fun _ sound => .pure sound
  · exact (Reads.inScope (.lift (block_reading each))).bind fun _ sound =>
      .pure sound

/-- Every way to read a node is regular if the ways to read its children are. -/
theorem regular {room : Nat} (node : Node) (fit : Fits strict room node) :
    Regular strict room node := by
  induction node generalizing room with
  | mk info children ih =>
    obtain ⟨inner, rfl⟩ := fit.exists_room
    have each (child : Node) (member : child ∈ children) :=
      ih child member (fit.below.wider.mem member)
    have inside (child : Node) (member : child ∈ children) := ih child member (fit.below.mem member)
    have condition {names : String → Prop} :
        Reads strict names (ofExcept (exprOf (.mk info children) "condition")) Expr.Tame :=
      ofExcept_regular fun must => exprOf_within _ (fit.small must)
    have block := block_reading each
    constructor
    case fit => exact fit
    case statement => exact statement_regular fit each inside
    case block => exact block
    case branch =>
      intro names
      refine condition.bind fun condition tame => ?_
      refine (bodyIn_regular each _ _).bind fun body sound => ?_
      refine (alternatives_regular each).bind fun rest restSound => .pure fun must => ?_
      exact ⟨⟨tame must, (sound must).2, (restSound must).1⟩, (restSound must).2⟩
    case cases =>
      intro names
      have empty : CaseList.Sound (inner + 1) {} := ⟨trivial, nofun, trivial⟩
      exact .inScope ((cases_regular each fun _ => empty).bind
        fun list sound => .pure fun must => (sound must).finish)
    case group => exact groupParts_regular each
    case rule =>
      have unlabelled : TameLabels [] := nofun
      exact ruleParts_regular each (fun _ => unlabelled) fun _ => trivial

theorem statement_determined (node : Node) :
    Reads False (LeavesName node) (statement node) (SoundPart node.height) :=
  (regular node (.loose _ _)).statement

theorem cases_determined (list : CaseList) (children : List Node) :
    Reads False (fun _ => True) (cases list children) (CaseList.Sound (Node.heightOf children)) :=
  cases_regular (fun child member => regular child (.mem (.loose _ _) member)) False.elim

/-- Whatever the reading of a node comes to, a statement, none or an error, only a local declaration
changes the innermost scope, and there only at the names of its declarators; of all else only the
warnings change, and they only grow. -/
theorem statement_leaves_frame {node : Node} {cx after : Context}
    {result : Except LoweringError (Option Stmt)}
    (ends : (statement node).run.run cx = .ok (result, after)) :
    after.symbols.depth = cx.symbols.depth ∧ after.indent = cx.indent ∧
      after.capabilities = cx.capabilities ∧ after.target = cx.target ∧
      after.settings = cx.settings ∧ after.symbols.outer = cx.symbols.outer ∧
      (node.kind ≠ "local_variable_declaration" → after.symbols.inner = cx.symbols.inner) ∧
      (node.kind = "local_variable_declaration" →
        Scope.ChangedAt node.declaratorNames cx.symbols.inner after.symbols.inner) ∧
      cx.warnings <+: after.warnings := by
  obtain ⟨-, -, frame⟩ := (statement_determined node).frame rfl ends ends
  refine ⟨congrArg List.length frame.outer, frame.indent, frame.capabilities, frame.target,
    frame.settings, frame.outer, ?_, ?_, frame.warnings⟩
  · intro otherKind
    apply Scope.Grown.eq
    exact frame.inner.mono fun name declared => otherKind declared.1
  · intro _
    apply Scope.Grown.changedAt
    exact frame.inner.mono fun name declared => declared.2

/-- Of `int a, b = ;` the reading fails at `b`. By then `a` has taken the place of an earlier `a`, and
the entry for `c` and the scope around are the same. -/
theorem statement_leaves_frame_failed_declarator :
    let part := Node.sample
    let node := part "local_variable_declaration" "" "int a, b = ;" [
      part "integral_type" "type" "int" [],
      part "variable_declarator" "declarator" "a" [part "identifier" "name" "a" []],
      part "variable_declarator" "declarator" "b = " [part "identifier" "name" "b" [],
        part "binary_expression" "value" "" []]]
    let cx : Context :=
      { target := .c
        symbols :=
          { inner := [scalar "c" .int, scalar "a" .double]
            outer := [[scalar "b" .int]] } }
    ∃ result after, (statement node).run.run cx = .ok (result, after) ∧
      (result.isOk = false ∧ after.symbols.inner = [scalar "a" .int, scalar "c" .int]) ∧
      after.symbols.outer = cx.symbols.outer ∧
      Scope.ChangedAt ["a", "b"] cx.symbols.inner after.symbols.inner := by
  intro part node cx
  have failed : ∃ result after, (statement node).run.run cx = .ok (result, after) ∧
      (result.isOk = false ∧
        after.symbols.inner = [scalar "a" .int, scalar "c" .int]) := by decide +kernel
  obtain ⟨result, after, ends, left⟩ := failed
  have frame := statement_leaves_frame ends
  obtain ⟨-, -, -, -, -, outer, -, changed, -⟩ := frame
  exact ⟨result, after, ends, left, outer, changed rfl⟩

end Lower

end Retarget
