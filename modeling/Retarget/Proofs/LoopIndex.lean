import Retarget.Proofs.Layout

/-!
# Indexes of loops

A loop over an array and the copy of an array bring in an index. Its name is free where the loop
begins: no variable in scope is called or written so, and neither is the variable of the loop.
-/

namespace Retarget

open Render.Steps (symbols_eq)
open Trial (bind_eq_ok)

def SymbolTable.names (table : SymbolTable) : List String :=
  table.symbols.map Symbol.sourceName

namespace SymbolTable

variable {table : SymbolTable} {name : String} {symbol : Symbol}

theorem isTaken_of_mem_names (member : name ∈ table.names) : table.isTaken name = true := by
  obtain ⟨symbol, inTable, rfl⟩ := List.mem_map.mp member
  exact List.any_eq_true.mpr ⟨symbol, inTable, by simp⟩

theorem mem_names_declare (table : SymbolTable) (symbol : Symbol) :
    symbol.sourceName ∈ (table.declare symbol).names :=
  List.mem_map.mpr ⟨symbol, mem_symbols.mpr ⟨_, List.mem_cons_self, List.mem_cons_self⟩, rfl⟩

theorem mem_symbols_declare {other : Symbol} (inTable : other ∈ table.symbols)
    (different : other.sourceName ≠ symbol.sourceName) : other ∈ (table.declare symbol).symbols := by
  obtain ⟨scope, inScopes, inScope⟩ := mem_symbols.mp inTable
  rcases List.mem_cons.mp inScopes with rfl | outside
  · refine mem_symbols.mpr ⟨_, List.mem_cons_self, List.mem_cons_of_mem _ ?_⟩
    exact List.mem_filter.mpr ⟨inScope, by simpa using different⟩
  · exact mem_symbols.mpr ⟨scope, List.mem_cons_of_mem _ outside, inScope⟩

theorem names_subset_declare (table : SymbolTable) (symbol : Symbol) :
    table.names ⊆ (table.declare symbol).names := by
  intro name member
  obtain ⟨other, inTable, rfl⟩ := List.mem_map.mp member
  by_cases same : other.sourceName = symbol.sourceName
  · rw [same]
    exact mem_names_declare table symbol
  · exact List.mem_map.mpr ⟨other, mem_symbols_declare inTable same, rfl⟩

theorem isTaken_of_declare (free : (table.declare symbol).isTaken name = false)
    (fresh : table.isTaken symbol.sourceName = false) : table.isTaken name = false := by
  refine List.any_eq_false.mpr fun other inTable => ?_
  have different := (ne_of_isTaken_eq_false fresh inTable).1
  have kept := ne_of_isTaken_eq_false free (mem_symbols_declare inTable different)
  simp [kept.1, kept.2]

theorem mem_of_lookup (found : table.lookup name = some symbol) :
    symbol ∈ table.symbols ∧ symbol.sourceName = name := by
  obtain ⟨scope, inScopes, inScope⟩ := List.exists_of_findSome?_eq_some found
  exact ⟨mem_symbols.mpr ⟨scope, inScopes, List.mem_of_find?_eq_some inScope⟩,
    by simpa using List.find?_some inScope⟩

end SymbolTable

namespace Render

/-- A name that is in scope where a rendering begins is in scope wherever it comes through. -/
theorem Steps.names_subset {α : Type} {target : Target} {room : Nat} {extent : Extent}
    {excused : α → Prop} {rendering : Render α}
    (steps : rendering.Steps True target room extent excused) {cx passed : Context}
    (member : passed ∈ rendering.trail cx) : cx.symbols.names ⊆ passed.symbols.names := by
  have stable : Stable target fun passed => cx.symbols.names ⊆ passed.symbols.names := {
    warn := by
      intro passed message kept
      rw [Context.symbols_warn]
      exact kept
    require := fun _ _ kept => kept
    indent := fun _ _ kept => kept
    pushScope := fun _ kept => kept
    popScope := by
      intro passed between inside kept
      rw [inside.symbols_popScope]
      exact kept
    declareFor := by
      intro passed symbol chosen after ends kept
      obtain ⟨between, choice, rfl⟩ := run_declareFor_eq_ok ends
      have same : between.symbols = passed.symbols := by
        obtain ⟨_, _, rfl⟩ | ⟨_, _, rfl⟩ := run_chooseName_eq_ok choice
        · rfl
        · exact Context.symbols_warn passed _
      rw [← same] at kept
      exact List.Subset.trans kept (SymbolTable.names_subset_declare _ _)
    declareFresh := by
      intro passed base type free kept
      exact List.Subset.trans kept (SymbolTable.names_subset_declare _ _) }
  exact steps.holds_of_mem_trail stable (List.Subset.refl _) member

end Render

namespace C

variable {cx after : Context} {name index : String}

theorem run_declareIndex (ends : (declareIndex name).run cx = .ok (index, after)) :
    cx.symbols.isTaken index = false ∧ index ≠ name ∧ index ∈ after.symbols.names ∧
      cx.symbols.names ⊆ after.symbols.names := by
  obtain ⟨first, between, begun, ends⟩ := Render.bind_eq_ok.mp ends
  obtain ⟨rfl, rfl⟩ := Render.run_declareFresh_eq_ok begun
  have free := cx.symbols.freshName_free "i"
  have kept := cx.symbols.names_subset_declare (Symbol.scalar (cx.symbols.freshName "i") .int)
  split at ends
  next same =>
    obtain ⟨rfl, rfl⟩ := Render.run_declareFresh_eq_ok ends
    have freeToo := SymbolTable.freshName_free
      (cx.symbols.declare (Symbol.scalar (cx.symbols.freshName "i") .int)) "i"
    refine ⟨SymbolTable.isTaken_of_declare freeToo free, ?_, SymbolTable.mem_names_declare _ _,
      List.Subset.trans kept (SymbolTable.names_subset_declare _ _)⟩
    -- The first choice was called like the variable, and it is taken now.
    rintro isName
    have taken := SymbolTable.isTaken_of_mem_names (SymbolTable.mem_names_declare cx.symbols
      (Symbol.scalar (cx.symbols.freshName "i") .int))
    rw [show (Symbol.scalar (cx.symbols.freshName "i") .int).sourceName = _ from
      same.trans isName.symm] at taken
    exact Bool.false_ne_true (freeToo.symm.trans taken)
  next other =>
    cases ends
    exact ⟨free, other, SymbolTable.mem_names_declare _ _, kept⟩

theorem run_declareFor {symbol : Symbol} {element : String}
    (ends : (Render.declareFor .c symbol).run cx = .ok (element, after)) :
    after.symbols.targetName symbol.sourceName = element ∧
      (∃ own ∈ after.symbols.symbols, own.sourceName = symbol.sourceName ∧ own.targetName = element) ∧
      cx.symbols.names ⊆ after.symbols.names ∧
      (∀ other ∈ cx.symbols.symbols, other.sourceName ≠ symbol.sourceName →
        other ∈ after.symbols.symbols) ∧
      ∀ index ∈ cx.symbols.names, index ≠ symbol.sourceName → element ≠ index := by
  obtain ⟨between, choice, rfl⟩ := Render.run_declareFor_eq_ok ends
  obtain ⟨same, chosen⟩ : between.symbols = cx.symbols ∧
      (element = symbol.sourceName ∨ cx.symbols.isTaken element = false) := by
    obtain ⟨_, rfl, rfl⟩ | ⟨_, rfl, rfl⟩ := Render.run_chooseName_eq_ok choice
    · exact ⟨rfl, .inl rfl⟩
    · exact ⟨Context.symbols_warn cx _, .inr (cx.symbols.substituteFor_free _ _).1⟩
  refine ⟨between.symbols.targetName_declare _, ⟨_, SymbolTable.mem_symbols.mpr
    ⟨_, List.mem_cons_self, List.mem_cons_self⟩, rfl, rfl⟩, ?_, fun other inTable different => ?_, ?_⟩
  · rw [← same]
    exact SymbolTable.names_subset_declare between.symbols _
  · rw [← same] at inTable
    exact SymbolTable.mem_symbols_declare inTable different
  · rintro index inScope other rfl
    rcases chosen with isName | free
    · exact other isName
    · exact Bool.false_ne_true (free.symm.trans (SymbolTable.isTaken_of_mem_names inScope))

theorem run_bindElement {source : Symbol} {type : ValueType} {array binding : String}
    (ends : (bindElement source type name array index).run.run cx = .ok (.ok binding, after))
    (inScope : index ∈ cx.symbols.names) (other : index ≠ name) :
    after.symbols.targetName name ≠ index ∧ cx.symbols.names ⊆ after.symbols.names ∧
      ∃ declared, (Render.line (declared ++ " = " ++ (array ++ "[" ++ index ++ "]") ++ ";")).run after =
        .ok (binding, after) := by
  obtain ⟨written, between, typed, ends⟩ := bind_eq_ok.mp ends
  have same : between.symbols = cx.symbols :=
    symbols_eq (@typeName_steady True .c 0 .contained type) typed
  rw [← same] at inScope ⊢
  -- Both branches declare the variable and write one line.
  have bound {symbol : Symbol} (own : symbol.sourceName = name) (declared : String → String)
      (ends : (do
        let element ← liftM (Render.declareFor .c symbol)
        liftM (Render.line (declared element ++ " = " ++ (array ++ "[" ++ index ++ "]") ++ ";")) :
          Attempt String).run.run between = .ok (.ok binding, after)) :
      after.symbols.targetName name ≠ index ∧ between.symbols.names ⊆ after.symbols.names ∧
        ∃ declared, (Render.line (declared ++ " = " ++ (array ++ "[" ++ index ++ "]") ++ ";")).run
          after = .ok (binding, after) := by
    obtain ⟨element, later, begun, ends⟩ := bind_eq_ok.mp ends
    obtain ⟨target, -, kept, -, apart⟩ := run_declareFor (run_of_lift begun)
    have line := run_of_lift ends
    cases (Render.run_line_eq_ok.mp line).2
    rw [own] at target apart
    exact ⟨target ▸ apart index inScope other, kept, _, line⟩
  dsimp only at ends
  split at ends
  · exact bound rfl (pointerDeclarator written) ends
  · exact bound rfl (fun element => written ++ " " ++ element) ends

theorem ne_of_visible {table : SymbolTable} {symbol : Symbol} {array : String}
    (visible : table.lookup array = some symbol) (free : table.isTaken index = false) :
    array ≠ index ∧ table.targetName array ≠ index := by
  obtain ⟨inTable, rfl⟩ := SymbolTable.mem_of_lookup visible
  obtain ⟨ne_source, ne_target⟩ := SymbolTable.ne_of_isTaken_eq_false free inTable
  refine ⟨ne_source, ?_⟩
  rwa [SymbolTable.targetName, visible]

/-- What a loop over an array brings in: an index that is free where the loop begins, and a context
in which the body is rendered, where the index is in scope. -/
structure IndexLoop (cx : Context) (name : String) (iterable : Expr) (body : List Stmt)
    (lines : List String) (index : String) (start : Context) : Prop where
  free : cx.symbols.isTaken index = false
  ne_name : index ≠ name
  ne_element : start.symbols.targetName name ≠ index
  ne_array : ∃ array, iterable = .ident array ∧ array ≠ index ∧ cx.symbols.targetName array ≠ index
  inScope : index ∈ start.symbols.names
  kept : cx.symbols.names ⊆ start.symbols.names
  written : ∃ header binding inside close array count declared between ended,
    lines = header :: binding :: inside ++ [close] ∧
    (Render.line ("for (int " ++ index ++ " = 0; " ++ index ++ " < " ++ count ++ "; " ++ index ++
      "++) \x7b")).run start = .ok (header, start) ∧
    (Render.line (declared ++ " = " ++ (array ++ "[" ++ index ++ "]") ++ ";")).run between =
      .ok (binding, between) ∧
    (Render.nested (stmts body)).run start = .ok (inside, ended)

theorem indexLoop_of_run {type : ValueType} {iterable : Expr} {body : List Stmt}
    {lines : List String}
    (ends : (forEachLines type name iterable (stmts body)).run.run cx = .ok (.ok lines, after)) :
    ∃ index start, IndexLoop cx name iterable body lines index start := by
  obtain ⟨table, _, begun, ends⟩ := bind_eq_ok.mp ends
  cases run_of_lift begun
  dsimp only at ends
  split at ends
  · cases ends
  next source found =>
    obtain ⟨array, first, arrayRun, ends⟩ := bind_eq_ok.mp ends
    obtain ⟨count, second, countRun, ends⟩ := bind_eq_ok.mp ends
    have same : second.symbols = cx.symbols :=
      (symbols_eq (@length_orderly .c .contained iterable) countRun).trans
        (symbols_eq (@expr_orderly .c .contained iterable) arrayRun)
    obtain ⟨_, inside, -⟩ := Render.run_inScope_eq_ok ends
    obtain ⟨index, third, indexRun, inside⟩ := bind_eq_ok.mp inside
    obtain ⟨binding, start, bindingRun, inside⟩ := bind_eq_ok.mp inside
    obtain ⟨header, _, headerRun, inside⟩ := bind_eq_ok.mp inside
    obtain ⟨inner, ended, innerRun, inside⟩ := bind_eq_ok.mp inside
    obtain ⟨close, _, closeRun, inside⟩ := bind_eq_ok.mp inside
    cases inside
    obtain ⟨free, ne_name, inScope, kept⟩ := run_declareIndex (run_of_lift indexRun)
    obtain ⟨between, -, bound, rfl⟩ := Render.run_indented_eq_ok bindingRun
    obtain ⟨ne_element, keptToo, declared, line⟩ := run_bindElement bound inScope ne_name
    have headerLine := run_of_lift headerRun
    cases (Render.run_line_eq_ok.mp headerLine).2
    have free : cx.symbols.isTaken index = false := same ▸ free
    have keptNames : cx.symbols.names ⊆ third.symbols.names := same ▸ kept
    refine ⟨index, { between with indent := between.indent - 1 }, free, ne_name, ne_element, ?_,
      keptToo inScope, List.Subset.trans keptNames keptToo, header, binding, inner, close, array,
      count, declared, between, ended, rfl, headerLine, line, run_of_lift innerRun⟩
    -- The array is in scope, so that the index is called neither like it nor like its output name.
    obtain ⟨named, -⟩ := Option.filter_eq_some_iff.mp found
    obtain ⟨array, isIdent, visible⟩ := Option.bind_eq_some_iff.mp named
    cases iterable with
    | ident name =>
      cases isIdent
      exact ⟨_, rfl, ne_of_visible visible free⟩
    | _ => cases isIdent

/-- Loops over arrays inside one another, from the outermost one: each is rendered from a context
that the body of the one around it comes through. -/
inductive Nest : Context → List String → Prop where
  | nil (cx : Context) : Nest cx []
  | cons {cx start inner : Context} {name index : String} {iterable : Expr} {body : List Stmt}
      {lines indexes : List String} (loop : IndexLoop cx name iterable body lines index start)
      (reached : inner ∈ (Render.nested (stmts body)).trail start) (nest : Nest inner indexes) :
      Nest cx (index :: indexes)

theorem Nest.distinct {indexes : List String} (nest : Nest cx indexes) :
    indexes.Nodup ∧ ∀ index ∈ indexes, index ∉ cx.symbols.names := by
  induction nest with
  | nil cx => exact ⟨List.nodup_nil, fun _ member => absurd member List.not_mem_nil⟩
  | @cons cx start inner name index iterable body lines indexes loop reached _ ih =>
    have orderly : (Render.nested (stmts body)).Orderly .c .declaring := (stmts_orderly body).nested
    have kept := orderly.names_subset reached
    refine ⟨List.nodup_cons.mpr ⟨fun again => ih.2 index again (kept loop.inScope), ih.1⟩, ?_⟩
    intro other member inScope
    rcases List.mem_cons.mp member with rfl | member
    · exact Bool.false_ne_true
        (loop.free.symm.trans (SymbolTable.isTaken_of_mem_names inScope))
    · exact ih.2 other member (kept (loop.kept inScope))

/-- What the copy of an array brings in: an index that is free once the copy is declared. -/
structure IndexCopy (cx : Context) (name : String) (lines : List String) (index : String)
    (start : Context) : Prop where
  free : start.symbols.isTaken index = false
  ne_name : index ≠ name ∧ start.symbols.targetName name ≠ index
  ne_visible : ∀ symbol ∈ cx.symbols.symbols, symbol.sourceName ≠ name →
    symbol.sourceName ≠ index ∧ symbol.targetName ≠ index
  written : ∃ storage header copy close unit text count, lines = [storage, header, copy, close] ∧
    (Render.line ("for (int " ++ index ++ " = 0; " ++ index ++ " < " ++ count ++ "; " ++ index ++
      "++) \x7b")).run start = .ok (header, start) ∧
    (Render.line (unit ++ start.symbols.targetName name ++ "[" ++ index ++ "] = " ++ text ++ "[" ++
      index ++ "];")).run start = .ok (copy, start)

theorem indexCopy_of_run {element : ValueType} {dimensions : Nat} {written : String} {source : Expr}
    {lines : List String} (flat : dimensions ≤ 1)
    (ends : (clonedArray name element dimensions written source).run.run cx = .ok (.ok lines, after)) :
    ∃ index start, IndexCopy cx name lines index start := by
  obtain ⟨text, first, textRun, ends⟩ := bind_eq_ok.mp ends
  obtain ⟨count, second, countRun, ends⟩ := bind_eq_ok.mp ends
  have same : second.symbols = cx.symbols :=
    (symbols_eq (@length_orderly .c .contained source) countRun).trans
      (symbols_eq (@expr_orderly .c .contained source) textRun)
  obtain ⟨table, _, begun, ends⟩ := bind_eq_ok.mp ends
  cases run_of_lift begun
  dsimp only at ends
  rw [if_pos flat] at ends
  obtain ⟨target, start, declared, ends⟩ := bind_eq_ok.mp ends
  obtain ⟨named, ⟨own, inTable, isName, isTarget⟩, -, others, -⟩ :=
    run_declareFor (run_of_lift declared)
  obtain ⟨_, _, begun, ends⟩ := bind_eq_ok.mp ends
  cases run_of_lift begun
  obtain ⟨_, _, begun, ends⟩ := bind_eq_ok.mp ends
  cases run_of_lift begun
  obtain ⟨unit, between, spaced, ends⟩ := bind_eq_ok.mp ends
  have unchanged : between = start := by
    have read := run_of_lift spaced
    cases width : spaces start.settings.indentWidth with
    | ok value =>
      rw [width] at read
      cases read
      rfl
    | error fault =>
      rw [width] at read
      cases read
  subst unchanged
  obtain ⟨storage, _, storageRun, ends⟩ := bind_eq_ok.mp ends
  cases (Render.run_line_eq_ok.mp (run_of_lift storageRun)).2
  obtain ⟨header, _, headerRun, ends⟩ := bind_eq_ok.mp ends
  have headerLine := run_of_lift headerRun
  cases (Render.run_line_eq_ok.mp headerLine).2
  obtain ⟨copy, _, copyRun, ends⟩ := bind_eq_ok.mp ends
  have copyLine := run_of_lift copyRun
  cases (Render.run_line_eq_ok.mp copyLine).2
  obtain ⟨close, _, closeRun, ends⟩ := bind_eq_ok.mp ends
  cases ends
  have free := between.symbols.freshName_free "i"
  have named : between.symbols.targetName name = target := named
  obtain ⟨ne_name, ne_target⟩ := SymbolTable.ne_of_isTaken_eq_false free inTable
  refine ⟨_, between, free, ⟨fun same => ne_name (isName.trans same.symm), ?_⟩, ?_, storage, header,
    copy, close, unit, text, count, rfl, headerLine, ?_⟩
  · rw [named, ← isTarget]
    exact ne_target
  · intro symbol visible other
    rw [← same] at visible
    exact SymbolTable.ne_of_isTaken_eq_false free (others symbol visible other)
  · rw [named]
    exact copyLine

/-- The index of a loop over an array is free where the loop begins and not the name of its element,
in the source or in the output. The indexes of loops inside one another are different. The index of
a copy differs from the name of the copy and from all others in scope, so from that of the array if
this is in scope. -/
theorem index_captures_nothing :
    (∀ (type : ValueType) (name : String) (iterable : Expr) (body : List Stmt) (cx after : Context)
      (lines : List String),
      (stmt (.forEach type name iterable body)).run.run cx = .ok (.ok lines, after) →
      ∃ index start, IndexLoop cx name iterable body lines index start) ∧
    (∀ (cx : Context) (indexes : List String), Nest cx indexes → indexes.Nodup) ∧
    ∀ (name : String) (element : ValueType) (dimensions : Nat) (source : Expr) (cx after : Context)
      (lines : List String), dimensions ≤ 1 →
      (stmt (.declareArray name element dimensions (.clone source))).run.run cx =
        .ok (.ok lines, after) →
      ∃ index start, IndexCopy cx name lines index start ∧
        ∀ array symbol, source = .ident array → cx.symbols.lookup array = some symbol →
          array ≠ name → array ≠ index ∧ cx.symbols.targetName array ≠ index := by
  refine ⟨fun type name iterable body cx after lines ends => indexLoop_of_run ends,
    fun cx indexes nest => nest.distinct.1, ?_⟩
  intro name element dimensions source cx after lines flat ends
  obtain ⟨written, between, typed, ends⟩ := bind_eq_ok.mp ends
  have same : between.symbols = cx.symbols :=
    symbols_eq (@typeName_steady True .c 0 .contained element) typed
  obtain ⟨index, start, copy⟩ := indexCopy_of_run flat ends
  refine ⟨index, start, ⟨copy.free, copy.ne_name, ?_, copy.written⟩, ?_⟩
  · rw [← same]
    exact copy.ne_visible
  · rintro array symbol - visible other
    obtain ⟨inTable, rfl⟩ := SymbolTable.mem_of_lookup visible
    rw [← same] at inTable
    obtain ⟨ne_source, ne_target⟩ := copy.ne_visible symbol inTable other
    refine ⟨ne_source, ?_⟩
    rwa [SymbolTable.targetName, visible]

/-- A loop over `i` whose variable is called `j` and changed in the body: the index is called `k`, and
so is that of a copy `j` of `i`. -/
theorem index_captures_nothing_third :
    let cx : Context := { target := .c, symbols := { inner := [Symbol.array "i" .int 1 none] } }
    let body : List Stmt := [.expr (.update .increment false (.ident "j"))]
    (∃ lines after, (stmt (.forEach .int "j" (.ident "i") body)).run.run cx = .ok (.ok lines, after) ∧
      ∃ index start, IndexLoop cx "j" (.ident "i") body lines index start) ∧
    ∃ lines after, (stmt (.declareArray "j" .int 1 (.clone (.ident "i")))).run.run cx =
        .ok (.ok lines, after) ∧
      ∃ index start, IndexCopy cx "j" lines index start ∧ "i" ≠ index := by
  intro cx body
  have ended (s : Stmt) (runs : ∃ result after, (stmt s).run.run cx = .ok (result, after) ∧
      result.isOk = true) : ∃ lines after, (stmt s).run.run cx = .ok (.ok lines, after) := by
    obtain ⟨_ | lines, after, ends, isOk⟩ := runs
    · cases isOk
    · exact ⟨lines, after, ends⟩
  refine ⟨?_, ?_⟩
  · obtain ⟨lines, after, ends⟩ := ended (.forEach .int "j" (.ident "i") body) (by decide +kernel)
    exact ⟨lines, after, ends, index_captures_nothing.1 _ _ _ _ _ _ _ ends⟩
  · obtain ⟨lines, after, ends⟩ := ended (.declareArray "j" .int 1 (.clone (.ident "i")))
      (by decide +kernel)
    obtain ⟨index, start, copy, apart⟩ :=
      index_captures_nothing.2.2 _ _ _ _ _ _ _ (Nat.le_refl 1) ends
    exact ⟨lines, after, ends, index, start, copy, (apart "i" _ rfl rfl (by decide)).1⟩

/-- The index of a copy is called like the cloned array, which is not in scope. -/
theorem index_captures_unknown_array :
    ∃ result after, (stmt (.declareArray "b" .int 1 (.clone (.ident "i")))).run.run
        { target := .c } = .ok (result, after) ∧
      result.toOption = some ["int b[sizeof(i) / sizeof(i[0])];",
        "for (int i = 0; i < sizeof(i) / sizeof(i[0]); i++) \x7b", "    b[i] = i[i];", "\x7d"] := by
  decide +kernel

end C

end Retarget
