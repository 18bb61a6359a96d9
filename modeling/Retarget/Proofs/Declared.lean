import Retarget.Proofs.LowerFrame
import Retarget.Proofs.Refusal

/-!
# What a reading declares

A local declaration declares each of its names in the innermost scope, and the statement that it
yields tells which and with which profile.
-/

namespace Retarget

open ValueType (ofJava)

variable {text : String}

def Stmt.declaration? : Stmt → Option (String × Profile)
  | .declare name type _ => some (name, .scalar type)
  | .declareArray name element dimensions _ => some (name, .array element dimensions)
  | _ => none

/-- The names and profiles that a statement read off a node declares around itself. -/
def Stmt.declarations : Stmt → List (String × Profile)
  | .sequence parts => parts.filterMap declaration?
  | stmt => stmt.declaration?.toList

def Stmt.IsFlat (stmt : Stmt) : Prop :=
  ∀ parts, stmt = .sequence parts → ∀ part ∈ parts, part.declaration?.isSome

def SymbolTable.Knows (table : SymbolTable) (known : List (String × Profile)) : Prop :=
  ∀ declared ∈ known, table.inner.view declared.1 = some declared.2

theorem SymbolTable.Knows.of_view {table other : SymbolTable} {known : List (String × Profile)}
    (knows : table.Knows known) (same : other.view = table.view) : other.Knows known := by
  intro declared member
  rw [(List.cons.inj same).1]
  exact knows declared member

variable {α β : Type} {target : Target} {known : List (String × Profile)}

namespace Render

def Keeps (known : List (String × Profile)) (rendering : Render α) : Prop :=
  ∀ cx value after, cx.symbols.Knows known → rendering.run cx = .ok (value, after) →
    after.symbols.view = cx.symbols.view

namespace Keeps

theorem bind {first : Render α} {rest : α → Render β} (begun : Keeps known first)
    (next : ∀ value, Keeps known (rest value)) : Keeps known (first >>= rest) := by
  intro cx value after knows ends
  obtain ⟨middle, between, firstRun, restRun⟩ := bind_eq_ok.mp ends
  have same := begun cx middle between knows firstRun
  exact (next middle between value after (knows.of_view same) restRun).trans same

theorem contained (target : Target) {excused : α → Prop} {rendering : Render α}
    (steps : rendering.Steps True target 0 .contained excused) : Keeps known rendering :=
  fun _ _ _ _ ends => congrArg SymbolTable.view (steps.symbols_eq ends)

theorem done (value : α) : Keeps known (.done value) := by
  rintro cx _ _ - ⟨⟩
  rfl

end Keeps

end Render

namespace Trial

variable {ε : Type}

/-- A computation that keeps the view of each table that knows the declarations, also if it stops
with an error. -/
def Keeps (known : List (String × Profile)) (trial : Trial ε α) : Prop :=
  Render.Keeps known trial.run

namespace Keeps

theorem lift {rendering : Render α} (keeps : rendering.Keeps known) :
    Keeps known (liftM rendering : Trial ε α) :=
  Render.Keeps.bind keeps fun _ => .done _

theorem contained (target : Target) {attempt : Attempt α}
    (orderly : attempt.Orderly target .contained) : Keeps known attempt :=
  Render.Keeps.contained target orderly

/-- To declare again what is known keeps the view. -/
theorem of_declares {declared : String × Profile} {attempt : Attempt α}
    (declares : attempt.Declares target fun symbol => (symbol.sourceName, symbol.profile) = declared)
    (member : declared ∈ known) : Keeps known attempt := by
  intro cx result after knows ends
  cases result with
  | error refusal => rw [declares.unchanged cx refusal after ends]
  | ok value =>
    obtain ⟨symbol, rfl, same⟩ := declares.declared cx value after ends
    rw [same]
    exact SymbolTable.view_redeclare (knows _ member)

end Keeps

end Trial

open Trial (Keeps)

namespace Render

theorem settle_keeps {source : Option String} {stmt : Stmt} {attempt : Attempt (List String)}
    (keeps : Trial.Keeps known attempt) (line : (degradedLine target source stmt).Keeps known) :
    (settle target source stmt attempt).Keeps known := by
  have degraded (reason : String) : (degrade target source stmt reason).Keeps known := by
    have told (message text : String) : (warn message >>= fun _ => oneLine text).Keeps known :=
      .contained .c ((Steady.warn _).bind fun _ => .oneLine _)
    refine .bind line fun text => ?_
    cases text with
    | some text => exact told _ text
    | none => exact told _ _
  refine .bind keeps fun result => ?_
  cases result with
  | error refusal => exact degraded _
  | ok lines =>
    refine (Keeps.contained .c Steady.settings).bind fun settings => ?_
    split
    · exact .done _
    · exact degraded _

end Render

namespace Target

theorem declaration_declares (target : Target) {stmt : Stmt} {declared : String × Profile}
    (found : stmt.declaration? = some declared) : (target.statement stmt).Declares target
      fun symbol => (symbol.sourceName, symbol.profile) = declared := by
  cases stmt with
  | declare name type init =>
    cases found
    cases target with
    | c => exact C.declareVariable_declares _ (fun _ => rfl) init
    | python => exact .andThen (Python.declareVariable_declares _ (by rfl) init) fun _ => .oneLine _
  | declareArray name element dimensions init =>
    cases found
    cases target with
    | c => exact C.declareArrayOf_declares _ fun _ _ _ _ => rfl
    | python =>
      exact .andThen (Python.declareArrayOf_declares _ (fun _ => rfl) init) fun _ => .oneLine _
  | _ => cases found

theorem declaration_keeps (target : Target) {stmt : Stmt} {declared : String × Profile}
    (found : stmt.declaration? = some declared) (member : declared ∈ known) :
    Keeps known (target.statement stmt) :=
  .of_declares (target.declaration_declares found) member

theorem sequence_keeps (target : Target) {parts : List Stmt}
    (flat : ∀ part ∈ parts, part.declaration?.isSome)
    (members : ∀ declared ∈ parts.filterMap Stmt.declaration?, declared ∈ known) :
    (target.renderStatements parts).Keeps known := by
  induction parts with
  | nil =>
    cases target with
    | c => exact .done _
    | python => exact .done _
  | cons part rest ih =>
    obtain ⟨declared, found⟩ := Option.isSome_iff_exists.mp (flat part List.mem_cons_self)
    have listed : (part :: rest).filterMap Stmt.declaration? =
        declared :: rest.filterMap Stmt.declaration? := List.filterMap_cons_some found
    rw [listed] at members
    have attempt : Keeps known (target.statement part) :=
      target.declaration_keeps found (members declared List.mem_cons_self)
    have later := ih (fun other member => flat other (List.mem_cons_of_mem part member))
      fun other member => members other (List.mem_cons_of_mem declared member)
    have unread : (Render.degradedLine target none part).Keeps known := by
      cases part with
      | unsupported kind text => cases found
      | _ => exact .done none
    have first := Render.settle_keeps attempt unread
    cases target with
    | c => exact .bind first fun _ => later.bind fun _ => .done _
    | python => exact .bind first fun _ => later.bind fun _ => .done _

theorem renderStatement_keeps (target : Target) (source : Option String) (stmt : Stmt)
    (flat : stmt.IsFlat) (line : (Render.degradedLine target source stmt).Keeps stmt.declarations) :
    (target.renderStatement source stmt).Keeps stmt.declarations := by
  have contained (isContained : stmt.extent = .contained) :
      Keeps stmt.declarations (target.statement stmt) :=
    .contained target (isContained ▸ target.statement_orderly stmt)
  refine Render.settle_keeps ?_ line
  cases stmt with
  | declare name type init => exact target.declaration_keeps rfl List.mem_cons_self
  | declareArray name element dimensions init =>
    exact target.declaration_keeps rfl List.mem_cons_self
  | sequence parts =>
    have kept := target.sequence_keeps (flat parts rfl) fun _ member => member
    cases target with
    | c => exact .lift kept
    | python => exact .lift kept
  | _ => exact contained rfl

end Target

namespace Degraded

variable (read : ∀ type name value, shape? text = some (.declaration type name value) →
  IsSimpleValue value → (name, .scalar type) ∈ known)

include read

theorem line_keeps (target : Target) : (line target text).Keeps known := by
  intro cx result after knows ends
  obtain same | ⟨type, name, value, _, _, found, simple, same, -⟩ := line_declaresByName ends
  · rw [same]
  · rw [same]
    exact SymbolTable.view_redeclare (knows _ (read type name value found simple))

end Degraded

/-! ## Declared names -/

def Stmt.Consistent (stmt : Stmt) : Prop :=
  ∀ first ∈ stmt.declarations, ∀ second ∈ stmt.declarations, first.1 = second.1 → first = second

instance (stmt : Stmt) : Decidable stmt.Consistent :=
  inferInstanceAs (Decidable (∀ first ∈ stmt.declarations, ∀ second ∈ stmt.declarations,
    first.1 = second.1 → first = second))

theorem Stmt.declarations_of_declaration {stmt : Stmt} {declared : String × Profile}
    (found : stmt.declaration? = some declared) : stmt.declarations = [declared] := by
  cases stmt with
  | declare name type init => exact congrArg Option.toList found
  | declareArray name element dimensions init => exact congrArg Option.toList found
  | _ => cases found

theorem Stmt.declarations_of_contained {stmt : Stmt} (contained : stmt.extent = .contained) :
    stmt.declarations = [] := by
  cases stmt with
  | declare name type init => cases contained
  | declareArray name element dimensions init => cases contained
  | sequence parts => cases contained
  | _ => rfl

namespace SymbolTable

def Has (table : SymbolTable) (declarations : List (String × Profile)) : Prop :=
  ∀ declared ∈ declarations, ∃ latest ∈ declarations,
    latest.1 = declared.1 ∧ table.inner.view declared.1 = some latest.2

variable {table : SymbolTable} {declarations : List (String × Profile)}

theorem Has.knows {stmt : Stmt} (has : table.Has stmt.declarations) (consistent : stmt.Consistent) :
    table.Knows stmt.declarations := by
  intro declared member
  obtain ⟨latest, latestMember, sameName, found⟩ := has declared member
  rw [found, consistent latest latestMember declared member sameName]

theorem Has.cons {other : SymbolTable} {declared : String × Profile}
    (has : table.Has declarations)
    (view : other.inner.view = fun name =>
      if name = declared.1 then some declared.2 else table.inner.view name) :
    other.Has (declared :: declarations) := by
  intro earlier member
  rw [view]
  by_cases again : earlier.1 = declared.1
  · exact ⟨declared, List.mem_cons_self, again.symm, if_pos again⟩
  · have old : earlier ∈ declarations := by
      rcases List.mem_cons.mp member with rfl | old
      · exact absurd rfl again
      · exact old
    obtain ⟨latest, latestMember, sameName, found⟩ := has earlier old
    exact ⟨latest, List.mem_cons_of_mem declared latestMember, sameName, (if_neg again).trans found⟩

theorem Has.of_mem_iff {others : List (String × Profile)} (has : table.Has declarations)
    (same : ∀ declared, declared ∈ others ↔ declared ∈ declarations) : table.Has others := by
  intro declared member
  obtain ⟨latest, latestMember, fact⟩ := has declared ((same declared).mp member)
  exact ⟨latest, (same latest).mpr latestMember, fact⟩

end SymbolTable

namespace Trial

variable {ε α β : Type} {holds : α → Prop} {later : β → Prop}

def Returns (trial : Trial ε α) (holds : α → Prop) : Prop :=
  ∀ cx value after, trial.run.run cx = .ok (.ok value, after) → holds value

namespace Returns

theorem pure {value : α} (fact : holds value) : Returns (pure value : Trial ε α) holds := by
  intro cx result after ends
  cases ends
  exact fact

theorem bind {first : Trial ε α} {rest : α → Trial ε β} (begun : Returns first holds)
    (next : ∀ value, holds value → Returns (rest value) later) :
    Returns (first >>= rest) later := by
  intro cx value after ends
  obtain ⟨middle, between, firstEnds, restEnds⟩ := bind_eq_ok.mp ends
  exact next middle (begun cx middle between firstEnds) between value after restEnds

theorem last {first : Trial ε α} {rest : α → Trial ε β}
    (next : ∀ value, Returns (rest value) later) : Returns (first >>= rest) later :=
  bind (fun _ _ _ _ => True.intro) fun value _ => next value

theorem fail (error : ε) : Returns (throw error : Trial ε α) holds :=
  fun _ _ _ ends => by cases ends

theorem refuse (refusal : Refusal) : Returns (Attempt.refuse refusal : Attempt α) holds := by
  intro cx value after ends
  cases ends

theorem ofExcept (result : Except Fault α) :
    Returns (Attempt.ofExcept result) fun value => result = .ok value := by
  intro cx value after ends
  cases result with
  | error fault => cases ends
  | ok value =>
    cases ends
    rfl

theorem inScope {body : Trial ε α} (returns : Returns body holds) :
    Returns (ExceptT.mk (Render.inScope body.run)) holds := by
  intro cx value after ends
  obtain ⟨between, inside, -⟩ := Render.run_inScope_eq_ok ends
  exact returns _ value between inside

end Returns

end Trial

namespace Lower

open Trial (Alike Returns bind_eq_ok)

def Declares (named : String → Prop) (reading : Lower Stmt) : Prop :=
  ∀ cx stmt after, reading.run.run cx = .ok (.ok stmt, after) → ∃ declared, named declared.1 ∧
    stmt.declaration? = some declared ∧ after.symbols.inner.view = fun name =>
      if name = declared.1 then some declared.2 else cx.symbols.inner.view name

variable {named : String → Prop}

namespace Declares

theorem declare {symbol : Symbol} {stmt : Stmt} (fits : named symbol.sourceName)
    (stated : stmt.declaration? = some (symbol.sourceName, symbol.profile)) :
    Declares named (do declare symbol; return stmt) := by
  intro cx result after ends
  cases ends
  exact ⟨_, fits, stated, Scope.view_insert cx.symbols.inner symbol⟩

theorem after {α : Type} {relates : α → α → Prop} {first : Lower α} {rest : α → Lower Stmt}
    (quiet : Alike False (fun _ => False) relates first first)
    (next : ∀ value, Declares named (rest value)) : Declares named (first >>= rest) := by
  intro cx stmt after ends
  obtain ⟨middle, between, firstEnds, restEnds⟩ := bind_eq_ok.mp ends
  obtain ⟨-, -, frame⟩ := Render.Twins.frame quiet rfl firstEnds firstEnds
  obtain ⟨declared, fits, stated, view⟩ := next middle between stmt after restEnds
  rw [frame.inner.eq] at view
  exact ⟨declared, fits, stated, view⟩

theorem afterExcept {α : Type} {result : Except LoweringError α} {rest : α → Lower Stmt}
    (next : ∀ value, result = .ok value → Declares named (rest value)) :
    Declares named (ofExcept result >>= rest) := by
  intro cx stmt after ends
  cases result with
  | error error => cases ends
  | ok value => exact next value rfl cx stmt after ends

end Declares

theorem arrayDeclarator_declares {name : String} (fits : named name) (element : ValueType)
    (dimensions : Nat) (value : Option Node) :
    Declares named (arrayDeclarator name element dimensions value) := by
  cases value with
  | none =>
    unfold arrayDeclarator
    dsimp only
    split
    · exact .after (warn_regular _) fun _ => .declare fits rfl
    · exact .declare fits rfl
  | some node =>
    unfold arrayDeclarator
    dsimp only
    split
    · refine .after (warn_regular _) fun _ => ?_
      exact .after (arrayValue_alike False.elim) fun _ => .declare fits rfl
    · exact .after (arrayValue_alike False.elim) fun _ => .declare fits rfl

theorem scalarDeclarator_declares (typeName : String) {name : String} (fits : named name)
    (value : Option Node) : Declares named (scalarDeclarator typeName name value) := by
  have typed (init : Option Expr) : Declares named (do
      let type ← scalarType typeName name init
      declare (Symbol.scalar name type)
      return .declare name type init) :=
    .after (scalarType_regular typeName name init) fun _ => .declare fits rfl
  cases value with
  | none => exact typed none
  | some node => exact .afterExcept fun e _ => typed (some e)

theorem declarator_declares (typeName : String) (typeRank : Nat) (node : Node) :
    Declares (fun name => (node.child? "name").map Node.text = some name)
      (declarator typeName typeRank node) := by
  refine .afterExcept fun name isText => ?_
  have fits : (node.child? "name").map Node.text = some name := by
    obtain ⟨part, found, rfl⟩ := Node.child_of_textOf isText
    rw [found]
    rfl
  dsimp only
  split
  · exact arrayDeclarator_declares fits _ _ _
  · split
    · exact .afterExcept fun element _ => arrayDeclarator_declares fits _ _ _
    · exact scalarDeclarator_declares _ fits _

/-- Declarators in a row leave each of their names in the innermost scope. -/
theorem declarators_has {typeName : String} {rank : Nat} {nodes : List Node} {cx after : Context}
    {parts : List Stmt} {earlier : List (String × Profile)} (has : cx.symbols.Has earlier)
    (ends : (nodes.mapM (declarator typeName rank)).run.run cx = .ok (.ok parts, after)) :
    (∀ part ∈ parts, part.declaration?.isSome) ∧
      (parts.filterMap Stmt.declaration?).map Prod.fst =
        (nodes.filterMap fun part => (part.child? "name").map Node.text) ∧
      after.symbols.Has (parts.filterMap Stmt.declaration? ++ earlier) := by
  induction nodes generalizing cx parts earlier with
  | nil =>
    cases ends
    exact ⟨nofun, rfl, has⟩
  | cons node rest ih =>
    rw [List.mapM_cons] at ends
    obtain ⟨part, between, first, ends⟩ := bind_eq_ok.mp ends
    obtain ⟨others, _, later, same⟩ := bind_eq_ok.mp ends
    cases same
    obtain ⟨declared, isName, stated, view⟩ :=
      declarator_declares typeName rank node cx part between first
    obtain ⟨declaring, names, had⟩ := ih (has.cons view) later
    rw [List.filterMap_cons_some stated]
    exact ⟨List.forall_mem_cons.mpr ⟨Option.isSome_of_mem stated, declaring⟩,
      by simp [isName, names],
      had.of_mem_iff fun _ => by simp [or_left_comm]⟩

/-- What the reading of a statement leaves: a statement that has no bare text of its own but the
given one, and symbols that have what it declares. -/
structure Leaves (text : String) (stmt : Stmt) (table : SymbolTable) : Prop where
  flat : stmt.IsFlat
  sourceText : Render.sourceText (some text) stmt = some text
  has : table.Has stmt.declarations

theorem localDeclaration_leaves (text : String) {node : Node} {cx after : Context} {stmt : Stmt}
    (ends : (localDeclaration node).run.run cx = .ok (.ok stmt, after)) :
    Leaves text stmt after.symbols ∧ stmt.declarations.map Prod.fst = node.declaratorNames := by
  obtain ⟨written, began, -, ends⟩ := bind_eq_ok.mp ends
  obtain ⟨parts, between, read, ends⟩ := bind_eq_ok.mp ends
  have none : began.symbols.Has [] := nofun
  obtain ⟨declaring, names, has⟩ := declarators_has none read
  rw [List.append_nil] at has
  match parts with
  | [] => cases ends
  | [single] =>
    cases ends
    obtain ⟨declared, stated⟩ := Option.isSome_iff_exists.mp (declaring stmt List.mem_cons_self)
    rw [List.filterMap_cons_some stated] at has names
    rw [Stmt.declarations_of_declaration stated]
    refine ⟨⟨?_, ?_, Stmt.declarations_of_declaration stated ▸ has⟩, names⟩
    · rintro parts rfl
      cases stated
    cases stmt with
    | unsupported kind text => cases stated
    | _ => rfl
  | first :: second :: rest =>
    cases ends
    refine ⟨⟨?_, rfl, has⟩, names⟩
    rintro parts ⟨⟩ part member
    exact declaring part member

/-- The statement declares nothing around itself and has no bare text but the given one. -/
def IsContained (text : String) (stmt : Stmt) : Prop :=
  stmt.extent = .contained ∧ Render.sourceText (some text) stmt = some text

theorem IsContained.leaves {text : String} {stmt : Stmt} (contained : IsContained text stmt)
    (table : SymbolTable) : Leaves text stmt table where
  flat := by
    rintro parts rfl
    cases contained.1
  sourceText := contained.2
  has := by
    rw [Stmt.declarations_of_contained contained.1]
    exact nofun

variable {text : String}

theorem print_returns (node : Node) : Returns (print node) (IsContained text) := by
  refine .last fun method => .last fun stream => ?_
  have printed : Returns (do
      let args ← ofExcept ((itemsIn "arguments" node.children).getD (.ok []))
      let formatted := method = "printf" || method = "format"
      if formatted && args.isEmpty then fail (.parse (method ++ " without a format string"))
      else return Stmt.print { args, newline := method = "println", formatted } : Lower Stmt)
      (IsContained text) := by
    refine .last fun args => ?_
    dsimp only
    split
    · exact .fail _
    · exact .pure ⟨rfl, rfl⟩
  split
  · exact .last fun _ => printed
  · exact printed

theorem expressionStatement_returns (node : Node) :
    Returns (expressionStatement node) (IsContained text) := by
  unfold expressionStatement
  split
  · exact .fail _
  · split
    · exact print_returns _
    · exact .last fun _ => .pure ⟨rfl, rfl⟩

theorem returnStatement_returns (node : Node) :
    Returns (returnStatement node) (IsContained text) := by
  unfold returnStatement
  split
  · exact .last fun _ => .pure ⟨rfl, rfl⟩
  · exact .pure ⟨rfl, rfl⟩

theorem statement_returns (node : Node) (other : node.kind ≠ "local_variable_declaration") :
    Returns (statement node) fun found =>
      ∀ stmt, found = some stmt → IsContained node.text stmt := by
  have yielded {text : String} {stmt : Stmt} (contained : IsContained text stmt) :
      Returns (pure (some stmt) : Lower (Option Stmt))
        fun found => ∀ stmt, found = some stmt → IsContained text stmt := by
    refine .pure ?_
    rintro _ ⟨⟩
    exact contained
  have nothing {text : String} : Returns (pure none : Lower (Option Stmt))
      fun found => ∀ stmt, found = some stmt → IsContained text stmt := by
    refine .pure ?_
    rintro _ ⟨⟩
  obtain ⟨info, children⟩ := node
  rw [statement]
  split
  case h_1 | h_2 | h_3 | h_13 | h_14 | h_19 => exact yielded ⟨rfl, rfl⟩
  case h_7 | h_8 | h_11 | h_12 => exact .last fun _ => .last fun _ => yielded ⟨rfl, rfl⟩
  case h_17 | h_18 => exact nothing
  next kind => exact absurd kind other
  · exact (expressionStatement_returns _).bind fun _ contained => yielded contained
  · exact .last fun _ => .last fun _ => .last fun _ => yielded ⟨rfl, rfl⟩
  · refine .inScope (.last fun init => ?_)
    split
    · exact .last fun _ => .last fun _ => .last fun _ => .last fun _ => yielded ⟨rfl, rfl⟩
    · exact .last fun _ => .last fun _ => .last fun _ => yielded ⟨rfl, rfl⟩
  · split
    · exact .last fun _ => .last fun _ => .last fun _ => yielded ⟨rfl, rfl⟩
    · exact .fail _
  · exact (returnStatement_returns _).bind fun _ contained => yielded contained
  · exact .last fun _ => yielded ⟨rfl, rfl⟩

theorem statement_localDeclaration {node : Node}
    (kind : node.kind = "local_variable_declaration") :
    statement node = do return some (← localDeclaration node) := by
  obtain ⟨info, children⟩ := node
  have infoKind : info.kind = "local_variable_declaration" := kind
  rw [statement]
  simp only [infoKind]

theorem statement_leaves {node : Node} {cx after : Context} {stmt : Stmt}
    (ends : (statement node).run.run cx = .ok (.ok (some stmt), after)) :
    Leaves node.text stmt after.symbols := by
  by_cases declaring : node.kind = "local_variable_declaration"
  · rw [statement_localDeclaration declaring] at ends
    obtain ⟨read, between, ends, same⟩ := bind_eq_ok.mp ends
    cases same
    exact (localDeclaration_leaves node.text ends).1
  · exact (statement_returns node declaring cx _ after ends stmt rfl).leaves after.symbols

end Lower

/-- The declaration of one variable, whose type is written with one word and whose name has no
brackets. -/
structure Node.DeclaresPlain (node : Node) (type : ValueType) (name : String) : Prop where
  kind : node.kind = "local_variable_declaration"
  written : ∃ word, node.child? "type" = some word ∧ word.kind ≠ "array_type" ∧
    (word.text, type) ∈ Degraded.declaredTypes
  single : ∃ declarator, node.childrenIn "declarator" = [declarator] ∧
    (declarator.child? "name").map Node.text = some name ∧ declarator.child? "dimensions" = none

namespace Lower

open Trial (Returns)

theorem declaredType_read {word : String} {type : ValueType}
    (member : (word, type) ∈ Degraded.declaredTypes) :
    word ≠ "var" ∧ ofJava word = type := by
  have all : ∀ entry ∈ Degraded.declaredTypes,
      entry.1 ≠ "var" ∧ ofJava entry.1 = entry.2 := by decide
  exact all _ member

theorem ofExcept_returns {α : Type} (result : Except LoweringError α) :
    Returns (ofExcept result) fun value => result = .ok value := by
  intro cx value after ends
  cases result with
  | error error => cases ends
  | ok found =>
    cases ends
    rfl

theorem scalarDeclarator_returns {typeName name : String} (written : typeName ≠ "var")
    (value : Option Node) : Returns (scalarDeclarator typeName name value) fun stmt =>
      ∃ init, stmt = .declare name (ofJava typeName) init := by
  have typed (init : Option Expr) :
      Returns (scalarType typeName name init) (· = ofJava typeName) := by
    unfold scalarType
    rw [if_neg written]
    dsimp only
    split
    · exact .last fun _ => .pure rfl
    · exact .pure rfl
  have declared (init : Option Expr) : Returns (do
      let type ← scalarType typeName name init
      declare (Symbol.scalar name type)
      return .declare name type init : Lower Stmt) fun stmt =>
        ∃ init, stmt = .declare name (ofJava typeName) init := by
    refine (typed init).bind fun type same => .last fun _ => .pure ⟨init, ?_⟩
    rw [same]
  cases value with
  | none => exact declared none
  | some node => exact .last fun e => declared (some e)

theorem declarator_returns {typeName : String} {node name : Node} (written : typeName ≠ "var")
    (named : node.child? "name" = some name) (noBrackets : node.child? "dimensions" = none) :
    Returns (declarator typeName 0 node) fun stmt =>
      ∃ init, stmt = .declare name.text (ofJava typeName) init := by
  have read : node.textOf "name" = .ok name.text := by
    rw [Node.textOf, Node.childIn, named]
    rfl
  have noCreation : (node.child? "value").filter (fun value =>
      value.kind = "array_creation_expression" && typeName = "var") = none := by simp [written]
  refine (ofExcept_returns _).bind fun found same => ?_
  rw [read] at same
  cases same
  dsimp only
  rw [noBrackets, noCreation]
  exact scalarDeclarator_returns written _

theorem statement_of_declaresPlain {node : Node} {type : ValueType} {name : String}
    (plain : node.DeclaresPlain type name) : Returns (statement node) fun found =>
      ∃ init, found = some (.declare name type init) := by
  obtain ⟨word, typed, notArray, member⟩ := plain.written
  obtain ⟨single, declarators, named, noBrackets⟩ := plain.single
  obtain ⟨child, isChild, rfl⟩ := Option.map_eq_some_iff.mp named
  obtain ⟨notVar, rfl⟩ := declaredType_read member
  have read : (node.childIn "type").bind writtenType = .ok (word.text, 0) := by
    rw [Node.childIn, typed]
    exact if_neg notArray
  have declared : Returns (localDeclaration node) fun stmt =>
      ∃ init, stmt = .declare child.text (ofJava word.text) init := by
    refine (ofExcept_returns _).bind fun written same => ?_
    rw [read] at same
    cases same
    rw [declarators]
    have parts : Returns ([single].mapM (declarator word.text 0)) fun parts =>
        ∃ init, parts = [.declare child.text (ofJava word.text) init] :=
      (declarator_returns notVar isChild noBrackets).bind fun part ⟨init, same⟩ =>
        .pure ⟨init, same ▸ rfl⟩
    refine parts.bind fun parts ⟨init, same⟩ => ?_
    subst same
    exact .pure ⟨init, rfl⟩
  rw [statement_localDeclaration plain.kind]
  exact declared.bind fun stmt ⟨init, same⟩ => .pure ⟨init, congrArg some same⟩

end Lower

end Retarget
