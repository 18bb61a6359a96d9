import Retarget.Proofs.CStmtWriting
import Retarget.Proofs.LineWords

/-!
# Names that a renderer inserts

A renderer names functions, macros and types of the library of its own accord, and a variable that
is written like one of them hides it.
-/

namespace Retarget

open Text

variable {name : String} {symbol : Symbol}

namespace Target

def ownTexts : Target → List String
  | c =>
    C.ownTexts ++ C.leads ++ C.joints ++ C.tails ++ (C.libraryTexts ++ C.libraryLeads).map Prod.fst
  | python =>
    Python.ownTexts ++ Python.leads ++ Python.joints ++ Python.tails ++
      Python.libraryTexts.map Prod.fst ++ Python.libraryFunctions.map ("math." ++ · ++ "(") ++
      [Keyword.if, .elif, .else, .for, .while].map Keyword.opening ++ ["print(f"]

/-- Words of these texts that refer to nothing in scope: keywords that no source has as a name, the
mark of a formatted literal, the label of an argument, the index of a comprehension, and members of
modules and values. In C all such words are reserved. -/
def silentWords : Target → List String
  | c => []
  | python =>
    ["if", "else", "for", "while", "break", "continue", "f", "end", "_", "copy", "lower", "strip",
      "upper", "pi", "e"] ++ Python.libraryFunctions

def ownWords (target : Target) : List String :=
  ((target.ownTexts.flatMap fun text => codeWords target.style [text]).filter
    (· ∉ target.silentWords)).eraseDups

/-- The functions, macros and types that a renderer names of its own accord, and its keywords. -/
def insertedNames : Target → List String
  | c =>
    ["NULL", "signed", "char", "short", "int", "long", "float", "double", "else", "do", "default",
      "break", "continue", "return", "unsigned", "sizeof", "case", "for", "if", "switch", "while",
      "printf", "snprintf", "bool", "true", "false", "INT_MAX", "INT_MIN", "LLONG_MAX",
      "LLONG_MIN", "M_PI", "M_E", "rand", "RAND_MAX", "sqrt", "cbrt", "pow", "floor", "ceil", "exp",
      "log", "log10", "sin", "cos", "tan", "asin", "acos", "atan", "atan2", "hypot", "fmod", "fabs",
      "fmax", "fmin", "llround", "abs", "llabs", "atoi", "atoll", "atof", "strlen", "strcmp",
      "memset", "memcpy"]
  | python =>
    ["True", "False", "None", "abs", "max", "min", "print", "pass", "raise", "SystemExit", "not",
      "bool", "chr", "float", "int", "len", "ord", "str", "and", "or", "in", "range", "math",
      "random", "elif"]

def exposedNames (target : Target) : List String :=
  target.insertedNames.filter (· ∉ target.reserved)

theorem ownWords_eq (target : Target) : target.ownWords = target.insertedNames := by
  cases target <;> decide +kernel

theorem contains_of_mem_insertedNames {target : Target} (member : name ∈ target.insertedNames) :
    Text.contains "_var" name = false := by
  have unmarked : ∀ name ∈ target.insertedNames, Text.contains "_var" name = false := by
    cases target <;> decide +kernel
  exact unmarked name member

theorem mem_exposedNames {target : Target} :
    name ∈ target.exposedNames ↔ name ∈ target.insertedNames ∧ name ∉ target.reserved := by
  rw [exposedNames, List.mem_filter, decide_eq_true_iff]

end Target

section Taking

variable {target : Target} {cx : Context}

/-- A variable is written under its own name, or under a substitute, which no exposed name needs. -/
def Context.LeavesExposed (target : Target) (cx : Context) : Prop :=
  ∀ symbol ∈ cx.symbols.symbols, symbol.targetName = symbol.sourceName ∨
    Text.contains "_var" symbol.targetName = true ∧ symbol.sourceName ∉ target.exposedNames

namespace Context.LeavesExposed

theorem ofSymbols {other : Context} (leaves : cx.LeavesExposed target)
    (symbols : ∀ symbol ∈ other.symbols.symbols, symbol ∈ cx.symbols.symbols) :
    other.LeavesExposed target :=
  fun symbol member => leaves symbol (symbols symbol member)

theorem declare (leaves : cx.LeavesExposed target)
    (fits : symbol.targetName = symbol.sourceName ∨
      Text.contains "_var" symbol.targetName = true ∧ symbol.sourceName ∉ target.exposedNames) :
    (cx.declare symbol).LeavesExposed target := by
  intro other member
  rcases SymbolTable.eq_or_mem_of_mem_declare member with rfl | old
  · exact fits
  · exact leaves other old

theorem not_mem_of_collides (leaves : cx.LeavesExposed target)
    (collides : cx.symbols.collides target.reserved name = true) : name ∉ target.exposedNames := by
  intro exposed
  obtain ⟨inserted, unreserved⟩ := Target.mem_exposedNames.mp exposed
  simp only [SymbolTable.collides, SymbolTable.isTargetOfOther, Bool.or_eq_true,
    decide_eq_true_eq, List.any_eq_true, Bool.and_eq_true] at collides
  rcases collides with reserved | ⟨other, member, same, different⟩
  · exact unreserved reserved
  · rcases leaves other member with kept | ⟨marked, _⟩
    · exact different (kept.symm.trans same)
    · rw [same, Target.contains_of_mem_insertedNames inserted] at marked
      cases marked

theorem declareFor {chosen : String} {after : Context} (leaves : cx.LeavesExposed target)
    (ends : (Render.declareFor target symbol).run cx = .ok (chosen, after)) :
    after.LeavesExposed target := by
  obtain ⟨between, choice, rfl⟩ := Render.run_declareFor_eq_ok ends
  obtain ⟨_, rfl, rfl⟩ | ⟨collides, found, rfl⟩ := Render.run_chooseName_eq_ok choice
  · exact leaves.declare (.inl rfl)
  · obtain ⟨n, substitute⟩ :=
      SymbolTable.substituteFor_eq cx.symbols target.reserved symbol.sourceName
    have warned : (cx.warn (Render.renameMessage cx.target (symbol.sourceName ∈ target.reserved)
        symbol.sourceName chosen)).LeavesExposed target :=
      leaves.ofSymbols fun other member => by rwa [Context.symbols_warn] at member
    refine warned.declare (.inr ⟨?_, leaves.not_mem_of_collides collides⟩)
    show Text.contains "_var" chosen = true
    rw [found, substitute]
    exact contains_substitute _ n

theorem stable (target : Target) : Stable target (Context.LeavesExposed target) where
  warn cx message leaves :=
    leaves.ofSymbols fun symbol member => by rwa [Context.symbols_warn] at member
  require _ _ leaves := leaves.ofSymbols fun _ member => member
  indent _ _ leaves := leaves.ofSymbols fun _ member => member
  pushScope _ leaves := leaves.ofSymbols fun _ member => member
  popScope cx between inside leaves :=
    leaves.ofSymbols fun symbol member => by rwa [inside.symbols_popScope] at member
  declareFor _ _ _ _ ends leaves := leaves.declareFor ends
  declareFresh _ _ _ _ leaves := leaves.declare (.inl rfl)

theorem targetName_mem_iff (leaves : cx.LeavesExposed target) (named : cx.WellNamed target)
    (member : symbol ∈ cx.symbols.symbols) :
    symbol.targetName ∈ target.insertedNames ↔ symbol.sourceName ∈ target.exposedNames := by
  rcases leaves symbol member with kept | ⟨marked, hidden⟩
  · rw [← kept, Target.mem_exposedNames, and_iff_left (named.unreserved symbol member)]
  · refine ⟨fun inserted => ?_, fun exposed => absurd exposed hidden⟩
    rw [Target.contains_of_mem_insertedNames inserted] at marked
    cases marked

end Context.LeavesExposed

end Taking

section Composition

/-- The names that the output of a program may have from its leaves: those in it, those in the bare
texts, those of indices, and substitutes of all of them. -/
inductive NamedIn (leaves : List Leaf) : String → Prop where
  | leaf {name : String} (member : .name name ∈ leaves) : NamedIn leaves name
  | bare {kind text name : String} {shape : Degraded.Shape} (member : .source kind text ∈ leaves)
      (shaped : Degraded.shape? text = some shape) (inside : name ∈ shape.names) :
      NamedIn leaves name
  | index (table : SymbolTable) : NamedIn leaves (table.freshName "i")
  | substitute {name : String} (named : NamedIn leaves name) (n : Nat) :
      NamedIn leaves (Naming.substitute name n)

def Diction.ofLeaves (leaves : List Leaf) : Diction where
  admits
    | .name name => NamedIn leaves name
    | leaf => leaf ∈ leaves
  substitute named n := .substitute named n
  index table := .index table
  bare member shaped inside := .bare member shaped inside

theorem Diction.ofLeaves_admits {leaves : List Leaf} {leaf : Leaf} (member : leaf ∈ leaves) :
    (Diction.ofLeaves leaves).admits leaf := by
  cases leaf with
  | name name => exact .leaf member
  | _ => exact member

def programLeaves (program : List (Option String × Stmt)) : List Leaf :=
  program.flatMap fun part =>
    (part.1.map (Leaf.source part.2.construct)).toList ++ part.2.leaves

/-- Rows that are put together from the texts of a renderer and from admitted leaves. -/
def Target.Composed (target : Target) (admits : Leaf → Prop) (caps : Caps)
    (rows : List Row) : Prop :=
  match target with
  | .c => C.Listing admits caps rows
  | .python => Python.InShape admits (Row.WellNested 0) caps rows

section Rendering

variable {rule : SymbolRule} {level : Nat} {caps : Caps} {shape : List Row → Prop}

theorem Render.Lays.concatMap {α : Type} {f : α → Render (List String)} {xs : List α}
    (empty : shape []) (append : ∀ {rows more}, shape rows → shape more → shape (rows ++ more))
    (lays : ∀ x ∈ xs, (f x).Lays rule level caps shape) :
    (Render.concatMap f xs).Lays rule level caps shape := by
  induction xs with
  | nil => exact .rows [] (fun _ => rfl) empty
  | cons x xs ih =>
    obtain ⟨first, others⟩ := List.forall_mem_cons.mp lays
    exact .andThen append first (ih others)

end Rendering

theorem Target.renderAll_composed (target : Target) {settings : Settings}
    {program : List (Option String × Stmt)} {lines : List String} {after : Context}
    (ends : (target.renderAll program).run { target, settings } = .ok (lines, after)) :
    ∃ rows, lines = Row.lines rows (Context.layout { target, settings }) ∧
      target.Composed (Diction.ofLeaves (programLeaves program)).admits after.capabilities
        rows := by
  have clean : ∀ part ∈ program,
      part.2.Over (Diction.ofLeaves (programLeaves program)).admits ∧ ∀ text ∈ part.1,
        (Diction.ofLeaves (programLeaves program)).admits (.source part.2.construct text) := by
    intro part member
    refine ⟨fun leaf inside => Diction.ofLeaves_admits ?_, fun text inside => ?_⟩
    · exact List.mem_flatMap.mpr ⟨part, member, List.mem_append_right _ inside⟩
    · refine List.mem_flatMap.mpr ⟨part, member, List.mem_append_left _ ?_⟩
      rw [Option.mem_toList, Option.mem_def.mp inside]
      rfl
  cases target with
  | c =>
    have lays : (Target.c.renderAll program).Lays
        (Diction.ofLeaves (programLeaves program)).cRule 0 after.capabilities
        (C.Laid (.of (Diction.ofLeaves (programLeaves program))) [] [] after.capabilities) := by
      refine .concatMap (.nil []) C.Laid.append ?_
      intro part member
      obtain ⟨fine, read⟩ := clean part member
      exact C.settle_lists fine read (C.stmt_mayList fine 0)
    obtain ⟨rows, same, laid⟩ := lays.rows_of_run (Target.c.renderAll_orderly program)
      (fun _ member => by cases member) ends
    exact ⟨rows, same, laid.listing⟩
  | python =>
    have lays : (Target.python.renderAll program).Lays
        (Diction.ofLeaves (programLeaves program)).pythonRule 0 after.capabilities
        (Python.InShape (Diction.ofLeaves (programLeaves program)).admits (Row.WellNested 0)
          after.capabilities) := by
      refine .concatMap .nil (fun first second => first.append second .append) ?_
      intro part member
      obtain ⟨fine, read⟩ := clean part member
      exact Python.settle_builds fine read (Python.stmt_builds part.2 fine 0)
    exact lays.rows_of_run (Target.python.renderAll_orderly program)
      (fun _ member => by cases member) ends

end Composition

namespace Target

/-- A statement in whose rendering a name is inserted that a variable in scope has: the name is no
leaf of the statement, but a word of its lines, and the variable is written so. -/
def CapturedBy (target : Target) (name : String) (use : Stmt) : Prop :=
  .name name ∉ use.leaves ∧ ∃ lines after,
    (target.renderAll [(none, .declare name .int none), (none, use)]).run { target } =
      .ok (lines, after) ∧
    name ∈ codeWords target.style lines.tail ∧
      ∃ symbol ∈ after.symbols.symbols, symbol.targetName = name

instance decidableCapturedBy (target : Target) (name : String) (use : Stmt) :
    Decidable (target.CapturedBy name use) :=
  inferInstanceAs (Decidable (_ ∧ ∃ lines after, _ = Except.ok (lines, after) ∧ _))

def exposingUses : Target → List (String × Stmt)
  | c =>
    let whole : Expr := .literal (.int "1")
    let real : Expr := .literal (.double "1.5")
    let member (type field : String) : Stmt := .expr (.member (.ident type) field)
    let call (type method : String) (args : List Expr) : Stmt :=
      .expr (.call (some (.ident type)) method args)
    [("INT_MAX", member "Integer" "MAX_VALUE"), ("INT_MIN", member "Integer" "MIN_VALUE"),
      ("LLONG_MAX", member "Long" "MAX_VALUE"), ("LLONG_MIN", member "Long" "MIN_VALUE"),
      ("M_PI", member "Math" "PI"), ("M_E", member "Math" "E"), ("rand", call "Math" "random" []),
      ("RAND_MAX", call "Math" "random" [])] ++
    (C.mathFunctions.map fun function => (function, call "Math" function [real])) ++
    [("fmod", .expr (.binary .mod real real)), ("fabs", call "Math" "abs" [real]),
      ("fmax", call "Math" "max" [real, real]), ("fmin", call "Math" "min" [real, real]),
      ("llround", call "Math" "round" [real]), ("abs", call "Math" "abs" [whole]),
      ("llabs", call "Math" "abs" [.literal (.long "1")]),
      ("atoi", call "Integer" "parseInt" [.literal (.string "1")]),
      ("atoll", call "Long" "parseLong" [.literal (.string "1")]),
      ("atof", call "Double" "parseDouble" [.literal (.string "1")])]
  | python =>
    [("SystemExit", .returnStmt none), ("bool", .expr (.cast .boolean (.ident "x")))]

theorem exposingUses_names (target : Target) :
    target.exposedNames = target.exposingUses.map Prod.fst := by
  cases target <;> decide +kernel

theorem capturedBy_of_mem (target : Target) :
    ∀ entry ∈ target.exposingUses, target.CapturedBy entry.1 entry.2 := by
  cases target <;> decide +kernel

/-- In every context that a program comes through, a variable takes a name that the renderer inserts
exactly if it is called by one that is not reserved. The renderer inserts no other names: its lines
are put together from its own texts and from the leaves of the program. And each name that is not
reserved can be taken so. -/
theorem inserted_taken_iff_exposed (target : Target) (settings : Settings)
    (program : List (Option String × Stmt)) (cx : Context)
    (member : cx ∈ { target, settings } :: (target.renderAll program).trail { target, settings }) :
    (∀ symbol ∈ cx.symbols.symbols,
      (symbol.targetName ∈ target.insertedNames ↔ symbol.sourceName ∈ target.exposedNames)) ∧
    (∀ name, name ∈ target.exposedNames ↔ name ∈ target.insertedNames ∧ name ∉ target.reserved) ∧
    target.ownWords = target.insertedNames ∧
    (∀ lines after, (target.renderAll program).run { target, settings } = .ok (lines, after) →
      ∃ rows, lines = Row.lines rows (Context.layout { target, settings }) ∧
        target.Composed (Diction.ofLeaves (programLeaves program)).admits after.capabilities rows) ∧
    ∀ name ∈ target.exposedNames, ∃ use, target.CapturedBy name use := by
  have leaves : cx.LeavesExposed target := by
    have begins : Context.LeavesExposed target { target, settings } := by
      intro _ member
      cases member
    rcases List.mem_cons.mp member with rfl | passed
    · exact begins
    · exact (target.renderAll_orderly program).holds_of_mem_trail
        (Context.LeavesExposed.stable target) begins passed
  have named : cx.WellNamed target := (target.wellNamed_of_mem_trail settings program cx member).1
  refine ⟨fun symbol => leaves.targetName_mem_iff named, fun _ => mem_exposedNames,
    target.ownWords_eq, fun _ _ => target.renderAll_composed, fun name exposed => ?_⟩
  rw [exposingUses_names] at exposed
  obtain ⟨entry, listed, rfl⟩ := List.mem_map.mp exposed
  exact ⟨entry.2, target.capturedBy_of_mem entry listed⟩

/-- A variable of a reserved name is written differently and takes no name; one that is called like
a function that is not reserved takes the name of that function. -/
theorem inserted_taken_iff_exposed_abs :
    let program : List (Option String × Stmt) :=
      [(none, .declare "printf" .int none), (none, .declare "abs" .int none)]
    let start : Context := { target := .c }
    ∃ cx ∈ start :: (c.renderAll program).trail start,
      ∃ first ∈ cx.symbols.symbols, ∃ second ∈ cx.symbols.symbols,
        first.targetName = "printf_var" ∧ second.targetName = "abs" ∧
        (first.targetName ∈ c.insertedNames ↔ first.sourceName ∈ c.exposedNames) ∧
        (second.targetName ∈ c.insertedNames ↔ second.sourceName ∈ c.exposedNames) := by
  intro program start
  have reached : ∃ cx ∈ start :: (c.renderAll program).trail start,
      ∃ first ∈ cx.symbols.symbols, ∃ second ∈ cx.symbols.symbols,
        first.targetName = "printf_var" ∧ second.targetName = "abs" := by decide +kernel
  obtain ⟨cx, member, first, firstIn, second, secondIn, firstWritten, secondWritten⟩ := reached
  have taken := (inserted_taken_iff_exposed c {} program cx member).1
  exact ⟨cx, member, first, firstIn, second, secondIn, firstWritten, secondWritten,
    taken first firstIn, taken second secondIn⟩

/-- A variable is written like the function or type that its initial value is computed with, and no
warning is given. -/
theorem inserted_name_captured :
    (∃ lines after, (c.renderAll [(none, .declare "abs" .int (some (.literal (.int "1")))),
        (none, .declare "y" .int (some (.call (some (.ident "Math")) "abs" [.ident "abs"])))]).run
          { target := .c } = .ok (lines, after) ∧
      lines = ["int abs = 1;", "int y = abs(abs);"] ∧ after.warnings = []) ∧
    ∃ lines after, (python.renderAll
        [(none, .declare "bool" .boolean (some (.literal (.bool true)))),
        (none, .declare "y" .boolean (some (.cast .boolean (.ident "bool"))))]).run
          { target := .python } = .ok (lines, after) ∧
      lines = ["bool = True", "y = bool(bool)"] ∧ after.warnings = [] := by decide +kernel

end Target

end Retarget
