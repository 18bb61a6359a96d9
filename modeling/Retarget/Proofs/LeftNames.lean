import Retarget.Proofs.Independence
import Retarget.Proofs.Naming

/-!
# Names through a whole conversion

A conversion reads a statement and renders it before it reads the next one.
-/

namespace Retarget

variable {α : Type} {symbol : Symbol} {rendering : Render α} {value : α} {stmt : Stmt}

def Symbol.IsLeft (left : String → Prop) (symbol : Symbol) : Prop :=
  symbol.targetName = symbol.sourceName ∧ left symbol.sourceName

theorem Symbol.IsLeft.imp {left more : String → Prop} (isLeft : symbol.IsLeft left)
    (wider : left symbol.sourceName → more symbol.sourceName) : symbol.IsLeft more :=
  ⟨isLeft.1, wider isLeft.2⟩

structure SymbolTable.NamedBut (target : Target) (left : String → Prop) (table : SymbolTable) :
    Prop where
  /-- Of two variables that are written alike one was left. -/
  distinct : ∀ first ∈ table.symbols, ∀ second ∈ table.symbols,
    first.sourceName ≠ second.sourceName → first.targetName = second.targetName →
      first.IsLeft left ∨ second.IsLeft left
  unreserved : ∀ symbol ∈ table.symbols, symbol.targetName ∈ target.reserved → symbol.IsLeft left

theorem SymbolTable.other_of_mem_declare {table : SymbolTable} {other : Symbol}
    (root : table.outer = []) (member : other ∈ (table.declare symbol).symbols)
    (isOld : other ≠ symbol) : other.sourceName ≠ symbol.sourceName := by
  obtain ⟨scope, inTable, inScope⟩ := mem_symbols.mp member
  simp only [scopes, declare, root, List.mem_singleton] at inTable
  subst inTable
  have kept := (List.mem_cons.mp inScope).resolve_left isOld
  simpa using (List.mem_filter.mp kept).2

namespace SymbolTable

theorem chosenName_not_mem (table : SymbolTable) (reserved : List String) (name : String) :
    table.chosenName reserved name ∉ reserved := by
  unfold chosenName
  split
  · exact (table.substituteFor_free reserved name).2
  next kept => exact (ne_of_collides_eq_false (Bool.eq_false_iff.mpr kept)).1

theorem ne_chosenName {table : SymbolTable} {reserved : List String} {name : String} {other : Symbol}
    (member : other ∈ table.symbols) (different : other.sourceName ≠ name) :
    other.targetName ≠ table.chosenName reserved name := by
  unfold chosenName
  split
  · exact (ne_of_isTaken_eq_false (table.substituteFor_free reserved name).1 member).2
  next kept => exact (ne_of_collides_eq_false (Bool.eq_false_iff.mpr kept)).2 other member different

end SymbolTable

namespace SymbolTable.NamedBut

variable {target : Target} {left more : String → Prop} {table other : SymbolTable}

theorem mono (named : table.NamedBut target left) (wider : ∀ name, left name → more name) :
    table.NamedBut target more where
  distinct := fun first firstMember second secondMember different same =>
    (named.distinct first firstMember second secondMember different same).imp (·.imp (wider _))
      (·.imp (wider _))
  unreserved := fun symbol member reserved =>
    (named.unreserved symbol member reserved).imp (wider _)

theorem of_subset (named : table.NamedBut target left) (fewer : other.symbols ⊆ table.symbols) :
    other.NamedBut target left where
  distinct := fun first firstMember second secondMember =>
    named.distinct first (fewer firstMember) second (fewer secondMember)
  unreserved := fun symbol member => named.unreserved symbol (fewer member)

/-- A new symbol is left itself, or it is written like no other one and like no reserved word. -/
theorem declare (named : table.NamedBut target left)
    (still : ∀ other ∈ (table.declare symbol).symbols, other ≠ symbol →
      left other.sourceName → more other.sourceName)
    (own : symbol.IsLeft more ∨ symbol.targetName ∉ target.reserved ∧ ∀ other ∈ table.symbols,
      other.sourceName ≠ symbol.sourceName → other.targetName ≠ symbol.targetName) :
    (table.declare symbol).NamedBut target more := by
  have old {other : Symbol} (member : other ∈ (table.declare symbol).symbols)
      (different : other ≠ symbol) : other ∈ table.symbols :=
    (eq_or_mem_of_mem_declare member).resolve_left different
  constructor
  · intro first firstMember second secondMember different same
    by_cases isNew : first = symbol
    · subst isNew
      have older := old secondMember fun same => different (same ▸ rfl)
      exact .inl (own.resolve_right fun apart => apart.2 second older different.symm same.symm)
    by_cases isNewToo : second = symbol
    · subst isNewToo
      exact .inr (own.resolve_right fun apart => apart.2 first (old firstMember isNew) different same)
    · exact (named.distinct first (old firstMember isNew) second (old secondMember isNewToo) different
        same).imp (·.imp (still _ firstMember isNew)) (·.imp (still _ secondMember isNewToo))
  · intro other member reserved
    by_cases isNew : other = symbol
    · subst isNew
      exact own.resolve_right fun apart => apart.1 reserved
    · exact (named.unreserved other (old member isNew) reserved).imp (still other member isNew)

theorem redeclared (table : SymbolTable) (target : Target) (symbol : Symbol) :
    table.chosenName target.reserved symbol.sourceName ∉ target.reserved ∧
      ∀ other ∈ table.symbols, other.sourceName ≠ symbol.sourceName →
        other.targetName ≠ table.chosenName target.reserved symbol.sourceName :=
  ⟨table.chosenName_not_mem _ _, fun _ member different => ne_chosenName member different⟩

theorem redeclare_root (named : table.NamedBut target left) (root : table.outer = [])
    (symbol : Symbol) : (table.redeclare target symbol).NamedBut target
      fun name => left name ∧ name ≠ symbol.sourceName := by
  refine named.declare (fun other member isOld isLeft => ?_) (.inr (redeclared table target symbol))
  have different := other_of_mem_declare root member isOld
  exact ⟨isLeft, different⟩

theorem of_grown {names : String → Prop} {later : Scope} (named : table.NamedBut target left)
    (grown : Scope.Grown names table.inner later) :
    ({ table with inner := later } : SymbolTable).NamedBut target
      fun name => left name ∨ names name := by
  induction grown with
  | same => exact named.mono fun name isLeft => .inl isLeft
  | insert _ symbol isName own ih => exact ih.declare (fun _ _ _ => id) (.inl ⟨own, .inr isName⟩)

theorem stable (target : Target) (left : String → Prop) :
    Stable target fun cx => cx.symbols.NamedBut target left where
  warn := by
    intro cx message named
    rw [Context.symbols_warn]
    exact named
  require := fun _ _ named => named
  indent := fun _ _ named => named
  pushScope := fun _ named => named.of_subset fun _ member => member
  popScope := by
    intro cx between inside named
    rw [inside.symbols_popScope]
    exact named
  declareFor := by
    intro cx symbol chosen after ends named
    rw [Render.symbols_of_declareFor ends]
    exact named.declare (fun _ _ _ => id) (.inr (redeclared _ _ symbol))
  declareFresh := by
    intro cx base type unreserved named
    refine named.declare (fun _ _ _ => id) (.inr ⟨unreserved, fun other member _ => ?_⟩)
    exact (ne_of_isTaken_eq_false (cx.symbols.freshName_free base) member).2

theorem of_run {room : Nat} {extent : Extent} {excused : α → Prop} {cx after : Context}
    (steps : rendering.Steps True target room extent excused)
    (named : cx.symbols.NamedBut target left)
    (ends : rendering.run cx = .ok (value, after)) : after.symbols.NamedBut target left := by
  have along : ∀ passed ∈ rendering.trail cx, passed.symbols.NamedBut target left :=
    fun passed member => steps.holds_of_mem_trail (stable target left) named member
  exact Render.holds_of_run named along ends

end SymbolTable.NamedBut

theorem Render.run_of_strict {cx after : Context}
    (strict : rendering.strict cx = some (value, after)) :
    rendering.run cx = .ok (value, after) := by
  induction rendering generalizing cx with
  | done result =>
    cases strict
    rfl
  | halt fault => cases strict
  | read next ih => exact ih cx strict
  | update change next ih => exact ih strict
  | giveUp next => cases strict

namespace Target

variable {target : Target} {cx after : Context} {lines : List String}

theorem renderStatements_eq_renderAll (target : Target) (parts : List Stmt) :
    target.renderStatements parts = target.renderAll (parts.map fun part => (none, part)) := by
  induction parts with
  | nil => cases target <;> rfl
  | cons part rest ih =>
    have opened : target.renderStatements (part :: rest) = (do
        let first ← target.renderStatement none part
        let others ← target.renderStatements rest
        return first ++ others) := by cases target <;> rfl
    rw [opened, ih]
    rfl

theorem run_of_strictStatement (strict : target.strictStatement stmt cx = some (lines, after)) :
    (target.statement stmt).run.run cx = .ok (.ok lines, after) := by
  unfold strictStatement at strict
  split at strict
  next own _ found =>
    split at strict
    · cases strict
      exact Render.run_of_strict found
    · cases strict
  next => cases strict

theorem strictLines_of_sequence {parts : List Stmt}
    (strict : target.strictStatement (.sequence parts) cx = some (lines, after)) :
    target.strictLines parts cx = some (lines, after) := by
  have lifted : target.statement (.sequence parts) = liftM (target.renderStatements parts) := by
    cases target <;> rfl
  have whole : (target.renderStatements parts).strict cx = target.strictLines parts cx := by
    rw [renderStatements_eq_renderAll, strict_renderAll, List.map_map]
    exact congrArg (target.strictLines · cx) (List.map_id parts)
  unfold strictStatement at strict
  split at strict
  next own reached found =>
    split at strict
    · cases strict
      rw [lifted] at found
      change Render.strict (target.renderStatements parts >>= fun own =>
        Render.done (Except.ok own)) cx = _ at found
      rw [Render.strict_bind, whole] at found
      obtain ⟨⟨own, between⟩, inside, same⟩ := Option.bind_eq_some_iff.mp found
      cases same
      exact inside
    · cases strict
  next => cases strict

end Target

namespace SymbolTable.NamedBut

variable {target : Target} {left : String → Prop} {cx after : Context} {lines : List String}

theorem of_strictStatement {declared : String × Profile} (named : cx.symbols.NamedBut target left)
    (root : cx.symbols.outer = []) (found : stmt.declaration? = some declared)
    (strict : target.strictStatement stmt cx = some (lines, after)) :
    (after.symbols.NamedBut target fun name => left name ∧ name ≠ declared.1) ∧
      after.symbols.outer = [] := by
  have ends := Target.run_of_strictStatement strict
  obtain ⟨symbol, rfl, same⟩ := (target.declaration_declares found).declared cx lines after ends
  constructor
  · rw [same]
    exact named.redeclare_root root symbol
  · exact ((target.statement_orderly stmt).frame ends).outer.trans root

theorem of_strictLines {parts : List Stmt} (named : cx.symbols.NamedBut target left)
    (root : cx.symbols.outer = []) (flat : ∀ part ∈ parts, part.declaration?.isSome)
    (strict : target.strictLines parts cx = some (lines, after)) : after.symbols.NamedBut target
      fun name => left name ∧ name ∉ (parts.filterMap Stmt.declaration?).map Prod.fst := by
  induction parts generalizing cx left lines with
  | nil =>
    cases strict
    exact named.mono fun name isLeft => ⟨isLeft, List.not_mem_nil⟩
  | cons part rest ih =>
    obtain ⟨declared, found⟩ := Option.isSome_iff_exists.mp (flat part List.mem_cons_self)
    obtain ⟨⟨own, between⟩, first, later⟩ := Option.bind_eq_some_iff.mp strict
    obtain ⟨⟨others, reached⟩, second, same⟩ := Option.bind_eq_some_iff.mp later
    cases same
    obtain ⟨settled, rootBetween⟩ := named.of_strictStatement root found first
    have restNamed := ih settled rootBetween
      (fun other member => flat other (List.mem_cons_of_mem part member)) second
    apply restNamed.mono
    rintro name ⟨⟨isLeft, different⟩, notLater⟩
    rw [List.filterMap_cons_some found, List.map_cons]
    exact ⟨isLeft, List.not_mem_cons_of_ne_of_not_mem different notLater⟩

theorem of_strict {source : Option String} (named : cx.symbols.NamedBut target left)
    (root : cx.symbols.outer = []) (flat : stmt.IsFlat)
    (strict : (target.renderStatement source stmt).strict cx = some (lines, after)) :
    after.symbols.NamedBut target
      fun name => left name ∧ name ∉ stmt.declarations.map Prod.fst := by
  have kept : after.symbols.NamedBut target left :=
    named.of_run (target.renderStatement_orderly source stmt) (Render.run_of_strict strict)
  rw [Target.strict_renderStatement] at strict
  have single {declared : String × Profile} (found : stmt.declaration? = some declared) :
      after.symbols.NamedBut target
        fun name => left name ∧ name ∉ stmt.declarations.map Prod.fst := by
    apply (named.of_strictStatement root found strict).1.mono
    intro name remains
    rw [Stmt.declarations_of_declaration found]
    simpa using remains
  cases stmt with
  | declare name type init => exact single rfl
  | declareArray name element dimensions init => exact single rfl
  | sequence parts =>
    exact named.of_strictLines root (flat parts rfl) (Target.strictLines_of_sequence strict)
  | _ => exact kept.mono fun name isLeft => ⟨isLeft, List.not_mem_nil⟩

end SymbolTable.NamedBut

theorem Render.Twins.strict_eq_some {β : Type} {must : Prop} {names : String → Prop}
    {relates : α → β → Prop} {second : Render β} {cx other after ended : Context} {twin : β}
    (reading : rendering.Twins must names relates second)
    (same : cx.symbols.view = other.symbols.view) (ends : rendering.run cx = .ok (value, after))
    (endsToo : second.run other = .ok (twin, ended)) :
    rendering.strict cx = some (value, after) := by
  induction reading generalizing cx other after ended with
  | done _ | warn _ _ | declare _ _ _ _ =>
    cases ends
    rfl
  | halt _ _ => cases ends
  | read _ ih => exact ih cx other same same ends endsToo
  | inScope _ ih =>
    obtain ⟨between, inside, rfl⟩ := run_inScope_eq_ok ends
    obtain ⟨meanwhile, insideToo, rfl⟩ := run_inScope_eq_ok endsToo
    have pushed : cx.pushScope.symbols.view = other.pushScope.symbols.view :=
      SymbolTable.view_push same
    exact strict_inScope (ih pushed inside insideToo)
  | bind begun _ firstIh restIh =>
    obtain ⟨middle, between, first, rest⟩ := bind_eq_ok.mp ends
    obtain ⟨mate, meanwhile, firstToo, restToo⟩ := bind_eq_ok.mp endsToo
    obtain ⟨related, sameBetween, -⟩ := begun.frame same first firstToo
    exact strict_bind_eq_some (firstIh same first firstToo)
      (restIh middle mate related sameBetween rest restToo)

/-- Lines of items in a row are those of the first ones and then those of the others. -/
theorem Render.run_concatMap_append {f : α → Render (List String)} {xs ys : List α}
    {cx after : Context} {lines : List String}
    (ends : (concatMap f (xs ++ ys)).run cx = .ok (lines, after)) :
    ∃ own between others, (concatMap f xs).run cx = .ok (own, between) ∧
      (concatMap f ys).run between = .ok (others, after) := by
  induction xs generalizing cx lines with
  | nil => exact ⟨[], cx, lines, rfl, ends⟩
  | cons x xs ih =>
    obtain ⟨first, middle, firstRun, ends⟩ := bind_eq_ok.mp ends
    obtain ⟨rest, _, restRun, ends⟩ := bind_eq_ok.mp ends
    cases ends
    obtain ⟨own, between, others, ownRun, othersRun⟩ := ih restRun
    refine ⟨first ++ own, between, others, ?_, othersRun⟩
    exact bind_eq_ok.mpr ⟨first, middle, firstRun, bind_eq_ok.mpr ⟨own, between, ownRun, rfl⟩⟩

namespace Conversion

open Render (bind_eq_ok isNotice)
open Lower (LeavesName)

variable {target : Target} {left : String → Prop} {node : Node} {item : Item} {items : List Item}
  {cx after : Context} {lines : List String} {name : String}

/-- The names of the local declarations among the items that a conversion comes to and has no lines
of their own for. -/
inductive GivenUp (target : Target) : Context → List Item → String → Prop where
  | here {cx : Context} {node : Node} {trailing : Option Node} {rest : List Item} {name : String}
      (declared : LeavesName node name) (lost : (statementLines target node).strict cx = none) :
      GivenUp target cx (.statement node trailing :: rest) name
  | later {cx between : Context} {item : Item} {rest : List Item} {lines : List String}
      {name : String} (run : (itemLines target item).run cx = .ok (lines, between))
      (givenUp : GivenUp target between rest name) : GivenUp target cx (item :: rest) name

theorem statementLines_eq_ok (run : (statementLines target node).run cx = .ok (lines, after)) :
    ∃ found middle rendering,
      (Lower.kept node.info (Lower.statement node)).run cx = .ok (found, middle) ∧
        cx.ReadFrame (LeavesName node) middle ∧ Render.Orderly target .declaring rendering ∧
        rendering.run middle = .ok (lines, after) ∧
        (statementLines target node).strict cx = rendering.strict middle ∧
        ∀ stmt, found = some stmt → rendering = target.renderStatement (some node.text) stmt := by
  obtain ⟨found, middle, kept, rendered⟩ := bind_eq_ok.mp run
  have reading := Lower.kept_reading node.info (Lower.statement_determined node)
  have begun := reading.strict_eq_some rfl kept kept
  obtain ⟨-, -, frame⟩ := reading.frame rfl kept kept
  cases found with
  | none =>
    refine ⟨none, middle, .done [], kept, frame, .done [], rendered, ?_, ?_⟩
    · rw [statementLines, Render.strict_bind, begun]
      rfl
    · intro stmt found
      cases found
  | some stmt =>
    refine ⟨some stmt, middle, target.renderStatement (some node.text) stmt, kept, frame,
      target.renderStatement_orderly _ stmt, rendered, ?_, ?_⟩
    · rw [statementLines, Render.strict_bind, begun]
      rfl
    · rintro _ ⟨⟩
      rfl

theorem names_of_strict {found : Option Stmt} {middle : Context}
    (isLocal : node.kind = "local_variable_declaration")
    (kept : (Lower.kept node.info (Lower.statement node)).run cx = .ok (found, middle))
    (strict : ∀ stmt, found = some stmt →
      (target.renderStatement (some node.text) stmt).strict middle ≠ none) :
    ∃ stmt, found = some stmt ∧ stmt.IsFlat ∧
      stmt.declarations.map Prod.fst = node.declaratorNames := by
  obtain ⟨result, reached, read, settled⟩ := bind_eq_ok.mp kept
  cases result with
  | error error =>
    cases settled
    refine absurd ?_ (strict _ rfl)
    cases target <;> rfl
  | ok value =>
    cases settled
    rw [Lower.statement_localDeclaration isLocal] at read
    obtain ⟨stmt, between, localRead, same⟩ := Trial.bind_eq_ok.mp read
    cases same
    obtain ⟨leaves, names⟩ := Lower.localDeclaration_leaves node.text localRead
    exact ⟨stmt, rfl, leaves.flat, names⟩

/-- One step of a conversion: the names of a statement are left only if it is a local declaration
that is given up. -/
theorem namedBut_of_statementLines (named : cx.symbols.NamedBut target left)
    (root : cx.symbols.outer = [])
    (run : (statementLines target node).run cx = .ok (lines, after)) :
    (after.symbols.NamedBut target fun name =>
      left name ∨ LeavesName node name ∧ (statementLines target node).strict cx = none) ∧
      after.symbols.outer = [] := by
  obtain ⟨found, middle, rendering, kept, frame, orderly, rendered, strict, isStatement⟩ :=
    statementLines_eq_ok run
  have rootMiddle : middle.symbols.outer = [] := frame.outer.trans root
  have read : middle.symbols.NamedBut target fun name => left name ∨ LeavesName node name := by
    have same : middle.symbols =
        { inner := middle.symbols.inner, outer := cx.symbols.outer } := by rw [← frame.outer]
    rw [same]
    exact named.of_grown frame.inner
  refine ⟨?_, (orderly.frame rendered).outer.trans rootMiddle⟩
  rw [strict]
  cases lost : rendering.strict middle with
  | none =>
    apply (read.of_run orderly rendered).mono
    exact fun name left => left.imp_right fun declared => ⟨declared, rfl⟩
  | some reached =>
    have settled : after.symbols.NamedBut target left := by
      by_cases isLocal : node.kind = "local_variable_declaration"
      · -- The declarations that were read settle all names that the reading has left.
        obtain ⟨stmt, rfl, flat, names⟩ := names_of_strict isLocal kept fun stmt isStmt => by
          rw [← isStatement stmt isStmt, lost]
          exact Option.some_ne_none _
        rw [isStatement stmt rfl] at lost rendered
        cases (Render.run_of_strict lost).symm.trans rendered
        apply (read.of_strict rootMiddle flat lost).mono
        rintro name ⟨isLeft | declared, undeclared⟩
        · exact isLeft
        · rw [names] at undeclared
          exact absurd declared.2 undeclared
      · apply SymbolTable.NamedBut.of_run orderly _ rendered
        exact read.mono fun name isLeft => isLeft.resolve_right fun declared => isLocal declared.1
    exact settled.mono fun name isLeft => .inl isLeft

theorem namedBut_of_itemLines (named : cx.symbols.NamedBut target left)
    (root : cx.symbols.outer = []) (run : (itemLines target item).run cx = .ok (lines, after))
    (rest : List Item) :
    (after.symbols.NamedBut target fun name => left name ∨ GivenUp target cx (item :: rest) name) ∧
      after.symbols.outer = [] := by
  cases item with
  | blank count =>
    cases run
    exact ⟨named.mono fun name isLeft => .inl isLeft, root⟩
  | comment node =>
    have orderly := target.renderStatement_orderly none (.comment (Lexeme.comment node.text))
    have kept := named.of_run orderly run
    exact ⟨kept.mono fun name isLeft => .inl isLeft, (orderly.frame run).outer.trans root⟩
  | statement node trailing =>
    obtain ⟨own, between, rendering, made, orderly, -, ends⟩ := statementLines_of_item run
    obtain ⟨stepped, rootBetween⟩ := namedBut_of_statementLines named root made
    refine ⟨(stepped.of_run orderly ends).mono ?_, (orderly.frame ends).outer.trans rootBetween⟩
    exact fun name isLeft => isLeft.imp_right fun lost => .here lost.1 lost.2

theorem namedBut_of_run (named : cx.symbols.NamedBut target left) (root : cx.symbols.outer = [])
    (run : (Render.concatMap (itemLines target) items).run cx = .ok (lines, after)) :
    after.symbols.NamedBut target fun name => left name ∨ GivenUp target cx items name := by
  induction items generalizing cx left lines with
  | nil =>
    cases run
    exact named.mono fun name isLeft => .inl isLeft
  | cons item rest ih =>
    obtain ⟨own, between, itemRun, ends⟩ := bind_eq_ok.mp run
    obtain ⟨others, _, restRun, same⟩ := bind_eq_ok.mp ends
    cases same
    obtain ⟨stepped, rootBetween⟩ := namedBut_of_itemLines named root itemRun rest
    apply (ih stepped rootBetween restRun).mono
    rintro name ((isLeft | givenUp) | givenUp)
    · exact .inl isLeft
    · exact .inr givenUp
    · exact .inr (.later itemRun givenUp)

theorem warnings_of_itemLines (run : (itemLines target item).run cx = .ok (lines, after)) :
    cx.warnings <+: after.warnings := by
  cases item with
  | blank count =>
    cases run
    exact List.prefix_rfl
  | comment node => exact ((target.renderStatement_orderly none _).frame run).warnings
  | statement node trailing =>
    obtain ⟨own, between, trailing, made, trailed, -, ends⟩ := statementLines_of_item run
    obtain ⟨_, middle, rendering, -, read, orderly, rendered, -, -⟩ := statementLines_eq_ok made
    exact (read.warnings.trans (orderly.frame rendered).warnings).trans
      (trailed.frame ends).warnings

theorem warnings_of_run
    (run : (Render.concatMap (itemLines target) items).run cx = .ok (lines, after)) :
    cx.warnings <+: after.warnings := by
  induction items generalizing cx lines with
  | nil =>
    cases run
    exact List.prefix_rfl
  | cons item rest ih =>
    obtain ⟨own, between, itemRun, ends⟩ := bind_eq_ok.mp run
    obtain ⟨others, _, restRun, same⟩ := bind_eq_ok.mp ends
    cases same
    exact (warnings_of_itemLines itemRun).trans (ih restRun)

theorem not_givenUp_of_silent
    (run : (Render.concatMap (itemLines target) items).run cx = .ok (lines, after))
    (silent : ∀ message ∈ after.warnings, isNotice message = false) :
    ¬ GivenUp target cx items name := by
  intro givenUp
  induction givenUp generalizing lines with
  | @here cx node trailing rest name _ lost =>
    obtain ⟨_, between, itemRun, ends⟩ := bind_eq_ok.mp run
    obtain ⟨_, _, restRun, same⟩ := bind_eq_ok.mp ends
    cases same
    obtain ⟨own, reached, trailing, made, trailed, -, ends⟩ := statementLines_of_item itemRun
    obtain ⟨_, middle, rendering, -, -, orderly, rendered, strict, -⟩ := statementLines_eq_ok made
    have later : reached.warnings ⊆ after.warnings :=
      ((trailed.frame ends).warnings.trans (warnings_of_run restRun)).subset
    have whole := orderly.strict_eq_some rendered id fun message given =>
      silent message (later given)
    rw [← strict, lost] at whole
    cases whole
  | later itemRun _ ih =>
    obtain ⟨_, between, again, ends⟩ := bind_eq_ok.mp run
    cases itemRun.symm.trans again
    obtain ⟨_, _, restRun, same⟩ := bind_eq_ok.mp ends
    cases same
    exact ih restRun

theorem symbols_opening (settings : Settings) (target : Target) (tree : Tree) :
    (opening settings target tree).symbols = {} := by
  unfold opening
  cases tree.hasError with
  | false => rfl
  | true => rfl

end Conversion

namespace Sample

open Node renaming sample → part

/-- The statements `int str = 1; int str_var = (str = 5); str_var = 7;`. -/
def overlaid : List Node := [
  declarationOf "int str = 1;" "integral_type" "int"
    [declaratorOf "str" [part "decimal_integer_literal" "value" "1" []]],
  declarationOf "int str_var = (str = 5);" "integral_type" "int"
    [declaratorOf "str_var" [part "parenthesized_expression" "value" "(str = 5)" [
      part "assignment_expression" "" "str = 5" [part "identifier" "left" "str" [],
        part "=" "operator" "=" [] false, part "decimal_integer_literal" "right" "5" []]]]],
  part "expression_statement" "" "str_var = 7;" [
    part "assignment_expression" "" "str_var = 7" [part "identifier" "left" "str_var" [],
      part "=" "operator" "=" [] false, part "decimal_integer_literal" "right" "7" []]]]

end Sample

open Sample

/-- After any number of items of the entry point's body, two variables are written alike, or one as
a reserved word, only if a declaration was given up and has left its name. Without a warning of a
placeholder or of a degraded translation all variables are written apart, and none as a reserved
word. A conversion that succeeds comes to that point. -/
theorem names_but_given_up (settings : Settings) (target : Target) (source : String) (tree : Tree)
    (body : Node) (entry : tree.root.entryBody? = some body) (before later : List Item)
    (items : Item.listOf settings.maxBlankLines body = before ++ later) :
    ((convert settings target source tree).success = true → ∃ lines cx,
      (Render.concatMap (Conversion.itemLines target) before).run
        (Conversion.opening settings target tree) = .ok (lines, cx)) ∧
    ∀ lines cx, (Render.concatMap (Conversion.itemLines target) before).run
        (Conversion.opening settings target tree) = .ok (lines, cx) →
      cx.symbols.NamedBut target
          (Conversion.GivenUp target (Conversion.opening settings target tree) before) ∧
        ((∀ message ∈ cx.warnings, Text.endsIn "; left a placeholder" message = false ∧
            Text.contains "; used degraded translation: " message = false) →
          (∀ first ∈ cx.symbols.symbols, ∀ second ∈ cx.symbols.symbols,
            first.sourceName ≠ second.sourceName → first.targetName ≠ second.targetName) ∧
          ∀ symbol ∈ cx.symbols.symbols, symbol.targetName ∉ target.reserved) := by
  constructor
  · intro success
    obtain ⟨lines, after, run⟩ := Conversion.items_of_success entry success
    rw [items] at run
    obtain ⟨own, between, others, ownRun, -⟩ := Render.run_concatMap_append run
    exact ⟨own, between, ownRun⟩
  · intro lines cx run
    have empty := Conversion.symbols_opening settings target tree
    have begins : (Conversion.opening settings target tree).symbols.NamedBut target
        fun _ => False := by
      rw [empty]
      exact ⟨nofun, nofun⟩
    have named := Conversion.namedBut_of_run begins (congrArg SymbolTable.outer empty) run
    have whole : cx.symbols.NamedBut target
        (Conversion.GivenUp target (Conversion.opening settings target tree) before) :=
      named.mono fun name isLeft => isLeft.resolve_left id
    refine ⟨whole, fun silent => ?_⟩
    have absent : ∀ name,
        ¬ Conversion.GivenUp target (Conversion.opening settings target tree) before name := by
      intro name
      apply Conversion.not_givenUp_of_silent run
      intro message given
      rw [Render.isNotice, (silent message given).1, (silent message given).2]
      rfl
    constructor
    · intro first firstMember second secondMember different same
      rcases whole.distinct first firstMember second secondMember different same with
        ⟨-, givenUp⟩ | ⟨-, givenUp⟩
      · exact absent _ givenUp
      · exact absent _ givenUp
    · intro symbol member reserved
      exact absent _ (whole.unreserved symbol member reserved).2

/-- After the first of the statements its only variable is written apart from all reserved words.
After the last one a variable is written as another one, and its name was left. -/
theorem names_but_given_up_overlaid :
    let items := Item.listOf ({} : Settings).maxBlankLines (bodyWith overlaid)
    let start := Conversion.opening {} .python (programWith overlaid)
    (∃ lines cx, (Render.concatMap (Conversion.itemLines .python) (items.take 1)).run start =
        .ok (lines, cx) ∧ cx.symbols.symbols.map Symbol.targetName = ["str_var"] ∧
          ∀ symbol ∈ cx.symbols.symbols, symbol.targetName ∉ Target.python.reserved) ∧
      Conversion.GivenUp .python start items "str_var" := by
  intro items start
  have split (count : Nat) := names_but_given_up {} .python "" (programWith overlaid)
    (bodyWith overlaid) (entryBody?_programWith _) (items.take count)
    (items.drop count) (List.take_append_drop count items).symm
  have first : ∃ lines cx,
      (Render.concatMap (Conversion.itemLines .python) (items.take 1)).run start =
        .ok (lines, cx) ∧ (cx.symbols.symbols.map Symbol.targetName = ["str_var"] ∧
          ∀ message ∈ cx.warnings, Text.endsIn "; left a placeholder" message = false ∧
            Text.contains "; used degraded translation: " message = false) := by decide +kernel
  have last : ∃ lines cx,
      (Render.concatMap (Conversion.itemLines .python) (items.take 3)).run start =
        .ok (lines, cx) ∧ ∃ first ∈ cx.symbols.symbols, ∃ second ∈ cx.symbols.symbols,
          first.sourceName = "str" ∧ second.sourceName = "str_var" ∧
            first.targetName = "str_var" ∧ second.targetName = "str_var" := by decide +kernel
  constructor
  · obtain ⟨lines, cx, run, written, silent⟩ := first
    exact ⟨lines, cx, run, written, (((split 1).2 lines cx run).2 silent).2⟩
  · obtain ⟨lines, cx, run, str, inTable, other, otherInTable, isStr, isOther, written,
      alike⟩ := last
    have named := ((split 3).2 lines cx run).1
    have different : str.sourceName ≠ other.sourceName := by simp [isStr, isOther]
    rcases named.distinct str inTable other otherInTable different (written.trans alike.symm) with
      ⟨own, -⟩ | ⟨-, givenUp⟩
    · rw [isStr, written] at own
      exact absurd own (by decide)
    · rw [isOther] at givenUp
      exact givenUp

/-- Of `int str = 1; int str_var = (str = 5); str_var = 7;` the second statement is given up in
Python. Both variables are then written `str_var`, and the third statement changes the first. -/
theorem names_alike_overlaid : (programWith overlaid).root.entryBody? = some (bodyWith overlaid) ∧
      (convert {} .python "" (programWith overlaid)).code =
        "str_var = 1\n# unsupported: variable declaration\nstr_var = 7\n" ∧
      ∃ lines cx, (Render.concatMap (Conversion.itemLines .python)
        (Item.listOf ({} : Settings).maxBlankLines (bodyWith overlaid))).run
          (Conversion.opening {} .python (programWith overlaid)) = .ok (lines, cx) ∧
        ∃ first ∈ cx.symbols.symbols, ∃ second ∈ cx.symbols.symbols,
          first.sourceName = "str" ∧ second.sourceName = "str_var" ∧
            first.targetName = "str_var" ∧ second.targetName = "str_var" :=
  ⟨entryBody?_programWith _, by decide +kernel, by decide +kernel⟩

end Retarget
