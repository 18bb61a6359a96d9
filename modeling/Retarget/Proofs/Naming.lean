import Retarget.Proofs.Strict

/-!
# Names stay apart

In every context that a program comes through, also while the body of a nested block is being
rendered, variables with different names have different names in the output, none of these is
reserved, and each change of a name was announced by a warning.
-/

namespace Retarget

variable {scope : Scope}

/-- What every kind of step for a target keeps. -/
structure Stable (target : Target) (holds : Context → Prop) : Prop where
  warn : ∀ cx message, holds cx → holds (cx.warn message)
  require : ∀ cx capability, holds cx → holds (cx.require capability)
  indent : ∀ cx level, holds cx → holds { cx with indent := level }
  pushScope : ∀ cx, holds cx → holds cx.pushScope
  popScope : ∀ cx between, cx.pushScope.Frame between → holds cx → holds between.popScope
  declareFor : ∀ cx symbol chosen after,
    (Render.declareFor target symbol).run cx = .ok (chosen, after) → holds cx → holds after
  declareFresh : ∀ cx base type, cx.symbols.freshName base ∉ target.reserved → holds cx →
    holds (cx.declare (Symbol.scalar (cx.symbols.freshName base) type))

theorem Render.holds_of_run {α : Type} {rendering : Render α} {holds : Context → Prop}
    {cx after : Context} {value : α} (begins : holds cx)
    (along : ∀ passed ∈ rendering.trail cx, holds passed)
    (ends : rendering.run cx = .ok (value, after)) : holds after := by
  rcases List.mem_cons.mp (mem_trail_of_run ends) with rfl | inside
  · exact begins
  · exact along after inside

theorem Render.Steps.holds_of_mem_trail {α : Type} {target : Target} {room : Nat} {extent : Extent}
    {excused : α → Prop} {rendering : Render α} {holds : Context → Prop}
    (steps : rendering.Steps True target room extent excused)
    (stable : Stable target holds) {cx passed : Context} (begins : holds cx)
    (member : passed ∈ rendering.trail cx) : holds passed := by
  induction steps generalizing cx passed with
  | done value => cases member
  | halt fault => cases member
  | read _ ih => exact ih cx (.inl trivial) begins member
  | warn message =>
    cases List.mem_singleton.mp member
    exact stable.warn cx message begins
  | require capability =>
    cases List.mem_singleton.mp member
    exact stable.require cx capability begins
  | declareFor symbol =>
    -- Between the warning and the declaration the names are still the old ones.
    obtain ⟨message, rfl⟩ | ⟨chosen, ends⟩ := mem_trail_declareFor member
    · exact stable.warn cx message begins
    · exact stable.declareFor cx symbol chosen passed ends begins
  | declareFresh base type free =>
    cases List.mem_singleton.mp member
    exact stable.declareFresh cx base type (free cx.symbols) begins
  | indented _ _ ih =>
    have entered := stable.indent cx (cx.indent + 1) begins
    obtain rfl | inside | ⟨value, between, ends, rfl⟩ := (mem_trail_indented.mp member).2
    · exact entered
    · exact ih entered inside
    · have left : holds between := holds_of_run entered (fun _ => ih entered) ends
      exact stable.indent between _ left
  | inScope inner ih =>
    have entered := stable.pushScope cx begins
    obtain rfl | inside | ⟨value, between, ends, rfl⟩ := mem_trail_inScope.mp member
    · exact entered
    · exact ih entered inside
    · exact stable.popScope cx between (inner.frame ends) begins
  | giveUp _ _ ih => exact ih begins member
  | bind _ _ _ firstIh restIh =>
    obtain inside | ⟨middle, between, ends, inside⟩ := mem_trail_bind.mp member
    · exact firstIh begins inside
    · have reached : holds between := holds_of_run begins (fun _ => firstIh begins) ends
      exact restIh middle reached inside

namespace SymbolTable

variable {table : SymbolTable} {symbol other : Symbol}

theorem mem_symbols : symbol ∈ table.symbols ↔ ∃ scope ∈ table.scopes, symbol ∈ scope :=
  List.mem_flatten

theorem eq_or_mem_of_mem_declare (member : other ∈ (table.declare symbol).symbols) :
    other = symbol ∨ other ∈ table.symbols := by
  obtain ⟨scope, inTable, inScope⟩ := mem_symbols.mp member
  rcases List.mem_cons.mp inTable with rfl | outer
  · rcases List.mem_cons.mp inScope with rfl | kept
    · exact .inl rfl
    · exact .inr (mem_symbols.mpr ⟨table.inner, .head _, (List.mem_filter.mp kept).1⟩)
  · exact .inr (mem_symbols.mpr ⟨scope, .tail _ outer, inScope⟩)

end SymbolTable

theorem Scope.nodup_insert (symbol : Symbol) (unique : (scope.map Symbol.sourceName).Nodup) :
    ((scope.insert symbol).map Symbol.sourceName).Nodup := by
  rw [Scope.insert, List.map_cons, List.nodup_cons]
  refine ⟨?_, unique.sublist (List.filter_sublist.map _)⟩
  intro member
  obtain ⟨other, kept, same⟩ := List.mem_map.mp member
  have different := (List.mem_filter.mp kept).2
  simp [same] at different

structure Context.WellNamed (target : Target) (cx : Context) : Prop where
  /-- Variables with different names are written differently. -/
  distinct : ∀ first ∈ cx.symbols.symbols, ∀ second ∈ cx.symbols.symbols,
    first.sourceName ≠ second.sourceName → first.targetName ≠ second.targetName
  unreserved : ∀ symbol ∈ cx.symbols.symbols, symbol.targetName ∉ target.reserved
  /-- A warning tells of each variable that is written differently from its name. -/
  announced : ∀ symbol ∈ cx.symbols.symbols, symbol.targetName ≠ symbol.sourceName →
    ∃ message ∈ cx.warnings,
      Text.endsIn ("; renamed to `" ++ symbol.targetName ++ "`") message = true
  unique : ∀ scope ∈ cx.symbols.scopes, (scope.map Symbol.sourceName).Nodup

namespace Context.WellNamed

variable {target : Target} {cx : Context}

theorem empty (target : Target) (settings : Settings) :
    Context.WellNamed target { target, settings } where
  distinct := by
    intro first member
    cases member
  unreserved := by
    intro symbol member
    cases member
  announced := by
    intro symbol member
    cases member
  unique := by
    intro scope member
    cases List.mem_singleton.mp member
    exact List.nodup_nil

theorem ofScopes {other : Context} (named : cx.WellNamed target)
    (scopes : ∀ scope ∈ other.symbols.scopes, scope = [] ∨ scope ∈ cx.symbols.scopes)
    (warnings : cx.warnings ⊆ other.warnings) : other.WellNamed target := by
  have symbols : ∀ symbol ∈ other.symbols.symbols, symbol ∈ cx.symbols.symbols := by
    intro symbol member
    obtain ⟨scope, inTable, inScope⟩ := SymbolTable.mem_symbols.mp member
    rcases scopes scope inTable with rfl | kept
    · cases inScope
    · exact SymbolTable.mem_symbols.mpr ⟨scope, kept, inScope⟩
  constructor
  · intro first firstMember second secondMember
    exact named.distinct first (symbols first firstMember) second (symbols second secondMember)
  · intro symbol member
    exact named.unreserved symbol (symbols symbol member)
  · intro symbol member renamed
    obtain ⟨message, given, tells⟩ := named.announced symbol (symbols symbol member) renamed
    exact ⟨message, warnings given, tells⟩
  · intro scope member
    rcases scopes scope member with rfl | kept
    · exact List.nodup_nil
    · exact named.unique scope kept

theorem declare (named : cx.WellNamed target) (symbol : Symbol)
    (apart : ∀ other ∈ cx.symbols.symbols, other.sourceName ≠ symbol.sourceName →
      other.targetName ≠ symbol.targetName)
    (unreserved : symbol.targetName ∉ target.reserved)
    (announced : symbol.targetName ≠ symbol.sourceName → ∃ message ∈ cx.warnings,
      Text.endsIn ("; renamed to `" ++ symbol.targetName ++ "`") message = true) :
    (cx.declare symbol).WellNamed target := by
  constructor
  · intro first firstMember second secondMember different
    rcases SymbolTable.eq_or_mem_of_mem_declare firstMember with rfl | firstOld
    · rcases SymbolTable.eq_or_mem_of_mem_declare secondMember with rfl | secondOld
      · exact (different rfl).elim
      · exact (apart second secondOld different.symm).symm
    · rcases SymbolTable.eq_or_mem_of_mem_declare secondMember with rfl | secondOld
      · exact apart first firstOld different
      · exact named.distinct first firstOld second secondOld different
  · intro other member
    rcases SymbolTable.eq_or_mem_of_mem_declare member with rfl | old
    · exact unreserved
    · exact named.unreserved other old
  · intro other member renamed
    rcases SymbolTable.eq_or_mem_of_mem_declare member with rfl | old
    · exact announced renamed
    · exact named.announced other old renamed
  · intro scope member
    rcases List.mem_cons.mp member with rfl | outer
    · exact Scope.nodup_insert symbol (named.unique cx.symbols.inner (.head _))
    · exact named.unique scope (.tail _ outer)

theorem warn (named : cx.WellNamed target) (message : String) :
    (cx.warn message).WellNamed target := by
  refine named.ofScopes ?_ (Frame.warn cx message).warnings.subset
  intro scope member
  rw [Context.symbols_warn] at member
  exact .inr member

theorem declareFor {symbol : Symbol} {chosen : String} {after : Context}
    (named : cx.WellNamed target)
    (ends : (Render.declareFor target symbol).run cx = .ok (chosen, after)) :
    after.WellNamed target := by
  obtain ⟨between, choice, rfl⟩ := Render.run_declareFor_eq_ok ends
  obtain ⟨kept, rfl, rfl⟩ | ⟨collides, found, rfl⟩ := Render.run_chooseName_eq_ok choice
  · obtain ⟨unreserved, apart⟩ := SymbolTable.ne_of_collides_eq_false kept
    exact named.declare _ apart unreserved fun renamed => (renamed rfl).elim
  · -- The substitute is nobody's name, so it is apart from all others, also from hidden ones.
    obtain ⟨free, unreserved⟩ :=
      cx.symbols.substituteFor_free target.reserved symbol.sourceName
    rw [← found] at free unreserved
    refine (named.warn _).declare _ ?_ unreserved ?_
    · intro other member _
      rw [Context.symbols_warn] at member
      exact (SymbolTable.ne_of_isTaken_eq_false free member).2
    · intro _
      refine ⟨_, Render.mem_warnings_warn cx _, ?_⟩
      simp only [Render.renameMessage, String.append_assoc]
      exact Text.endsIn_append _ _

theorem stable (target : Target) : Stable target (Context.WellNamed target) where
  warn := fun _ message named => named.warn message
  require := fun _ _ named => named.ofScopes (fun _ => .inr) (List.Subset.refl _)
  indent := fun _ _ named => named.ofScopes (fun _ => .inr) (List.Subset.refl _)
  pushScope := by
    intro cx named
    refine named.ofScopes ?_ (List.Subset.refl _)
    intro scope member
    exact List.mem_cons.mp member
  popScope := by
    intro cx between inside named
    refine named.ofScopes ?_ inside.warnings.subset
    intro scope member
    rw [inside.symbols_popScope] at member
    exact .inr member
  declareFor := fun _ _ _ _ ends named => named.declareFor ends
  declareFresh := by
    intro cx base type unreserved named
    refine named.declare _ ?_ unreserved fun renamed => (renamed rfl).elim
    intro other member _
    exact (SymbolTable.ne_of_isTaken_eq_false (cx.symbols.freshName_free base) member).2

end Context.WellNamed

theorem Scope.find?_eq_some {symbol : Symbol} (unique : (scope.map Symbol.sourceName).Nodup)
    (member : symbol ∈ scope) : scope.find? symbol.sourceName = some symbol := by
  induction scope with
  | nil => cases member
  | cons first rest ih =>
    rw [List.map_cons, List.nodup_cons] at unique
    rcases List.mem_cons.mp member with rfl | later
    · exact List.find?_cons_of_pos (by simp)
    · have different : first.sourceName ≠ symbol.sourceName := by
        intro same
        exact unique.1 (same ▸ List.mem_map_of_mem later)
      rw [Scope.find?, List.find?_cons_of_neg (by simp [different])]
      exact ih unique.2 later

namespace SymbolTable

variable {table : SymbolTable}

theorem lookup_eq_some {inside outside : List Scope} {symbol : Symbol}
    (scopes : table.scopes = inside ++ scope :: outside)
    (unique : (scope.map Symbol.sourceName).Nodup) (member : symbol ∈ scope)
    (innermost : ∀ inner ∈ inside, ∀ other ∈ inner, other.sourceName ≠ symbol.sourceName) :
    table.lookup symbol.sourceName = some symbol := by
  have passed : inside.findSome? (·.find? symbol.sourceName) = none := by
    rw [List.findSome?_eq_none_iff]
    intro inner inside
    exact List.find?_eq_none.mpr fun other present => by simp [innermost inner inside other present]
  rw [lookup, scopes, List.findSome?_append, passed, Option.none_or, List.findSome?_cons,
    Scope.find?_eq_some unique member]

theorem targetName_declare (table : SymbolTable) (symbol : Symbol) :
    (table.declare symbol).targetName symbol.sourceName = symbol.targetName := by
  simp [targetName, lookup, declare, scopes, Scope.find?, Scope.insert]

end SymbolTable

namespace Target

theorem run_expression_ident (target : Target) (name : String) (cx : Context) :
    (target.expression (.ident name)).run.run cx = .ok (.ok (cx.symbols.targetName name), cx) := by
  cases target with
  | c =>
    rw [expression]
    rfl
  | python =>
    rw [expression]
    rfl

/-- In every context that a program comes through, the names are fit for the target, and a name is
written as its innermost declaration chose it. -/
theorem wellNamed_of_mem_trail (target : Target) (settings : Settings)
    (program : List (Option String × Stmt)) (cx : Context)
    (member : cx ∈ { target, settings } :: (target.renderAll program).trail { target, settings }) :
    cx.WellNamed target ∧
      (∀ inside scope outside symbol, cx.symbols.scopes = inside ++ scope :: outside →
        symbol ∈ scope → (∀ inner ∈ inside, ∀ other ∈ inner, other.sourceName ≠ symbol.sourceName) →
        (target.expression (.ident symbol.sourceName)).run.run cx =
          .ok (.ok symbol.targetName, cx)) ∧
      (∀ symbol chosen after, (Render.declareFor target symbol).run cx = .ok (chosen, after) →
        (target.expression (.ident symbol.sourceName)).run.run after =
          .ok (.ok chosen, after)) := by
  have named : cx.WellNamed target := by
    have begins := Context.WellNamed.empty target settings
    rcases List.mem_cons.mp member with rfl | passed
    · exact begins
    · exact (target.renderAll_orderly program).holds_of_mem_trail
        (Context.WellNamed.stable target) begins passed
  refine ⟨named, ?_, ?_⟩
  · intro inside scope outside symbol scopes inScope innermost
    have unique := named.unique scope (by simp [scopes])
    rw [run_expression_ident, SymbolTable.targetName,
      SymbolTable.lookup_eq_some scopes unique inScope innermost]
  · intro symbol chosen after ends
    obtain ⟨between, _, rfl⟩ := Render.run_declareFor_eq_ok ends
    have written : (between.declare { symbol with targetName := chosen }).symbols.targetName
        symbol.sourceName = chosen := between.symbols.targetName_declare _
    rw [run_expression_ident, written]

/-- An array whose name is reserved takes the name that a variable in the body of a loop over it
has; inside that body both are written apart, and a further declaration is written as chosen. -/
theorem wellNamed_of_mem_trail_loop_body :
    let program : List (Option String × Stmt) :=
      [(none, .declareArray "main" .int 1 (.literal [.literal (.int "1")])),
        (none, .forEach .int "i" (.ident "main") [.declare "main_var" .int none])]
    let start : Context := { target := .c }
    ∃ cx ∈ start :: (Target.c.renderAll program).trail start,
      cx.symbols.depth = 2 ∧ cx.WellNamed .c ∧
        (Target.c.expression (.ident "main_var")).run.run cx = .ok (.ok "main_var_var", cx) ∧
        ∃ after, (Render.declareFor .c (Symbol.scalar "for" .int)).run cx = .ok ("for_var", after) ∧
          (Target.c.expression (.ident "for")).run.run after = .ok (.ok "for_var", after) := by
  intro program start
  have reached : ∃ cx ∈ start :: (Target.c.renderAll program).trail start,
      cx.symbols.depth = 2 ∧
        (∃ symbol ∈ cx.symbols.inner,
          symbol.sourceName = "main_var" ∧ symbol.targetName = "main_var_var") ∧
        ∃ chosen after, (Render.declareFor .c (Symbol.scalar "for" .int)).run cx =
          .ok (chosen, after) ∧ chosen = "for_var" := by decide +kernel
  obtain ⟨cx, member, depth, ⟨symbol, inScope, source, target⟩, _, after, ends, rfl⟩ := reached
  obtain ⟨named, innermost, declared⟩ := wellNamed_of_mem_trail .c {} program cx member
  have written := innermost [] cx.symbols.inner cx.symbols.outer symbol rfl inScope (by simp)
  rw [source, target] at written
  exact ⟨cx, member, depth, named, written, after, ends,
    declared (Symbol.scalar "for" .int) "for_var" after ends⟩

end Target

end Retarget
