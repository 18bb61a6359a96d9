import Retarget.Proofs.CStmtWriting
import Retarget.Proofs.LineWords

/-!
# Every word of the library is declared

A statement is rendered with a word of the library only if the capability behind that word is in use
afterwards, and a program that is assembled then declares it: in C by the header that is included,
in Python by the module that is imported.
-/

namespace Retarget

open Text Reading

section Programs

theorem Caps.mem_toList {caps : Caps} {capability : Capability}
    (used : caps.contains capability = true) : capability ∈ caps.toList := by
  refine List.mem_filter.mpr ⟨?_, used⟩
  cases capability <;> decide

def Target.declaration : Target → Capability → Option String
  | c, capability => some (C.includeLine (C.headerName capability))
  | python, capability => (Python.moduleName? capability).map ("import " ++ ·)

/-- A C program begins with its headers; only a margin that no text can hold keeps it from being
assembled. -/
theorem C.assemble_cases (cx : Context) (body : List String) :
    (∃ rest, C.assemble cx body = .ok (join "\n" (C.includeLine "stdio.h" ::
      (cx.capabilities.toList.map fun capability => C.includeLine (C.headerName capability)) ++
        "" :: rest) ++ "\n")) ∨
      maxTextSize < cx.settings.indentWidth ∧ ∃ fault, C.assemble cx body = .error fault := by
  unfold C.assemble
  split
  · by_cases fits : cx.settings.indentWidth ≤ maxTextSize
    · rw [spaces, if_pos fits]
      exact .inl ⟨_, rfl⟩
    · rw [spaces, if_neg fits]
      exact .inr ⟨Nat.lt_of_not_le fits, _, rfl⟩
  · exact .inl ⟨_, rfl⟩

theorem Target.assemble_declares (target : Target) {cx : Context} {capability : Capability}
    {line program : String} {body : List String}
    (used : cx.capabilities.contains capability = true)
    (declared : line ∈ target.declaration capability)
    (assembled : target.assemble cx body = .ok program) : line ∈ lines program := by
  have listed := Caps.mem_toList used
  have isLine : IsLine line := by
    cases target <;> cases capability <;> cases declared <;> decide
  cases target with
  | c =>
    cases declared
    have inHeaders : C.includeLine (C.headerName capability) ∈ C.includeLine "stdio.h" ::
        cx.capabilities.toList.map fun capability => C.includeLine (C.headerName capability) :=
      List.mem_cons_of_mem _ (List.mem_map_of_mem listed)
    rcases C.assemble_cases cx body with ⟨rest, whole⟩ | ⟨-, fault, fails⟩
    · cases whole.symm.trans assembled
      exact mem_lines_join (List.mem_append_left _ inHeaders) isLine
    · cases fails.symm.trans assembled
  | python =>
    obtain ⟨module, named, rfl⟩ := Option.map_eq_some_iff.mp declared
    have imported : "import " ++ module ∈
        (cx.capabilities.toList.filterMap Python.moduleName?).map ("import " ++ ·) :=
      List.mem_map_of_mem (List.mem_filterMap.mpr ⟨capability, listed, named⟩)
    cases assembled
    refine mem_lines_join (List.mem_append_left _ ?_) isLine
    rw [if_neg]
    · exact List.mem_append_left _ imported
    · intro empty
      rw [List.isEmpty_iff.mp empty] at imported
      cases imported

theorem Target.indentWidth_of_assemble_eq_error (target : Target) {cx : Context}
    {body : List String} {fault : Fault} (fails : target.assemble cx body = .error fault) :
    maxTextSize < cx.settings.indentWidth := by
  cases target with
  | python => cases fails
  | c =>
    rcases C.assemble_cases cx body with ⟨rest, whole⟩ | ⟨tooWide, -⟩
    · cases whole.symm.trans fails
    · exact tooWide

end Programs

/-- A symbol that is written without words of the library. What a name stands for may use what is in
use already. -/
def Symbol.Lexical (target : Target) (caps : Caps) (symbol : Symbol) : Prop :=
  Leaf.Lexical target caps (.name symbol.targetName) ∧
    (target = .c → ∀ array ∈ symbol.aliasOf, Leaf.Lexical .c caps (.measured array))

namespace Target

theorem covered_codeWords (target : Target) {s : Stmt} {cx after : Context} {lines : List String}
    (clean : s.Over (Leaf.Lexical target cx.capabilities))
    (symbols : ∀ symbol ∈ cx.symbols.symbols, symbol.Lexical target cx.capabilities)
    (ends : (target.statement s).run.run cx = .ok (.ok lines, after)) :
    ∀ word ∈ codeWords target.style lines, Covered (libraryWords target) after.capabilities word := by
  cases target with
  | c =>
    have lists : C.MayList (.of (.lexical .c cx.capabilities)) 0 after.capabilities (C.stmt s) :=
      C.stmt_mayList clean 0
    have admits : (Diction.lexical .c cx.capabilities).cRule.Admits after.capabilities
        cx.symbols := by
      intro symbol member
      obtain ⟨named, aliased⟩ := symbols symbol member
      exact ⟨named, fun array isAlias => .measured (aliased rfl array isAlias)⟩
    obtain ⟨rows, rfl, laid⟩ := lists.rows_of_run (C.stmt_orderly s) admits ends
    exact (laid.listing.crosses ((C.stmt_orderly s).frame ends).capabilities cx.layout).1
  | python =>
    have builds : Python.MayBuild (.lexical .python cx.capabilities) 0 after.capabilities
        (Python.stmt s) (Row.WellNested 0) :=
      Python.stmt_builds s clean 0
    have admits : (Diction.lexical .python cx.capabilities).pythonRule.Admits after.capabilities
        cx.symbols :=
      fun symbol member => (symbols symbol member).1
    obtain ⟨rows, rfl, inShape⟩ := builds.rows_of_run (Python.stmt_orderly s) admits ends
    exact (Python.crosses_rows inShape.written cx.layout).1

/-- If a statement is rendered with a word of the library, then the capability behind that word is
in use afterwards, and every program that is assembled then or later declares it. Only a margin that
no text can hold keeps a program from being assembled. -/
theorem statement_declares_library (target : Target) {s : Stmt} {cx after : Context}
    {lines : List String} {word : String} {capability : Capability}
    (clean : s.Over (Leaf.Lexical target cx.capabilities))
    (symbols : ∀ symbol ∈ cx.symbols.symbols, symbol.Lexical target cx.capabilities)
    (ends : (target.statement s).run.run cx = .ok (.ok lines, after))
    (known : (word, capability) ∈ libraryWords target)
    (written : word ∈ codeWords target.style lines) :
    after.capabilities.contains capability = true ∧
      ∃ line ∈ target.declaration capability, ∀ (later : Context) (body : List String),
        after.capabilities ≤ later.capabilities →
          (∀ program, target.assemble later body = .ok program → line ∈ Text.lines program) ∧
            ∀ fault, target.assemble later body = .error fault →
              maxTextSize < later.settings.indentWidth := by
  have used : after.capabilities.contains capability = true :=
    target.covered_codeWords clean symbols ends word written _ known rfl
  have declared : ∀ entry ∈ libraryWords target, (target.declaration entry.2).isSome = true := by
    cases target <;> decide
  obtain ⟨line, isDeclaration⟩ := Option.isSome_iff_exists.mp (declared _ known)
  refine ⟨used, line, isDeclaration, fun later body grown => ⟨?_, ?_⟩⟩
  · intro program assembled
    exact target.assemble_declares (grown _ used) isDeclaration assembled
  · intro fault fails
    exact target.indentWidth_of_assemble_eq_error fails

/-- A random number, below a comment that names the function it comes from. -/
theorem statement_declares_library_random :
    let s : Stmt := .block [.comment { text := "rand", isBlock := true },
      .declare "r" .double (some (.call (some (.ident "Math")) "random" []))]
    let cx : Context := { target := .c }
    ∃ result after, (c.statement s).run.run cx = .ok (result, after) ∧
      result = .ok ["\x7b", "    /* rand */", "    double r = ((double) rand() / RAND_MAX);",
        "\x7d"] ∧
      after.capabilities.contains .stdlib = true ∧
        ∀ program, c.assemble after [] = .ok program → "#include <stdlib.h>" ∈ Text.lines program := by
  intro s cx
  have rendered : ∃ result after, (c.statement s).run.run cx = .ok (result, after) ∧
      result = .ok ["\x7b", "    /* rand */", "    double r = ((double) rand() / RAND_MAX);",
        "\x7d"] := by decide +kernel
  obtain ⟨result, after, ends, rfl⟩ := rendered
  have clean : ∀ leaf ∈ s.leaves, Leaf.Lexical .c cx.capabilities leaf := by decide +kernel
  have known : ("RAND_MAX", .stdlib) ∈ libraryWords .c := by decide +kernel
  have written : "RAND_MAX" ∈ codeWords .c ["\x7b", "    /* rand */",
      "    double r = ((double) rand() / RAND_MAX);", "\x7d"] := by decide +kernel
  obtain ⟨used, line, declared, programs⟩ :=
    statement_declares_library c clean (fun _ member => by cases member) ends known written
  cases declared
  exact ⟨_, after, ends, rfl, used, (programs after [] (Caps.le_refl _)).1⟩

end Target

section Mistaken

/-- No word of the library stands in a leaf, comments aside, and it is of no unsupported
statement. -/
def Leaf.Wordless (target : Target) : Leaf → Prop
  | name written | numeral written | letter written | text written => Free target written
  | remark _ | measured _ => True
  | source .. => False

instance decidableWordless (target : Target) : DecidablePred (Leaf.Wordless target)
  | .name written | .numeral written | .letter written | .text written =>
    inferInstanceAs (Decidable (Free target written))
  | .remark _ | .measured _ => .isTrue True.intro
  | .source .. => .isFalse id

/-- A statement in which no word of the library stands is rendered with one whose capability is not
in use afterwards. -/
def SlipsIn (cx : Context) (s : Stmt) (word : String) (capability : Capability) : Prop :=
  (∀ leaf ∈ s.leaves, leaf.Wordless .c) ∧ (word, capability) ∈ libraryWords .c ∧
    ∃ result after, (Target.c.statement s).run.run cx = .ok (result, after) ∧
      word ∈ codeWords .c (result.toOption.getD []) ∧ after.capabilities.contains capability = false

instance decidableSlipsIn (cx : Context) (s : Stmt) (word : String) (capability : Capability) :
    Decidable (SlipsIn cx s word capability) :=
  inferInstanceAs (Decidable (_ ∧ _ ∧ ∃ result after, _ = Except.ok (result, after) ∧ _))

/-- What can be mistaken: a symbol or an alias in scope that is such a word, a number that is none, a
name that is none, the quote in a string, an escape of no meaning, the end of a block comment and a
backslash at the end of a line comment. -/
theorem statement_slips_in :
    let string (body : String) : Expr := .literal (.string body)
    SlipsIn { target := .c, symbols :=
        { inner := [{ Symbol.scalar "x" .int with targetName := "rand" }] } }
      (.expr (.ident "x")) "rand" .stdlib ∧
    SlipsIn { target := .c, symbols :=
        { inner := [{ Symbol.array "b" .int 1 none with aliasOf := some "rand" }] } }
      (.expr (.member (.ident "b") "length")) "rand" .stdlib ∧
    SlipsIn { target := .c } (.expr (.literal (.float "e.ato"))) "atof" .stdlib ∧
    SlipsIn { target := .c }
      (.declare "\\\"" .string (some (.binary .add (string "ra") (string "nd")))) "rand" .stdlib ∧
    SlipsIn { target := .c }
      (.print { args := [.binary .add (string "\", ra") (string "nd")], newline := false
                formatted := false }) "rand" .stdlib ∧
    SlipsIn { target := .c }
      (.print { args := [string "%\\,\\\"s%sos", string "x", .literal (.char "c")], newline := false
                formatted := true }) "cos" .math ∧
    SlipsIn { target := .c } (.comment { text := "*/ rand /*", isBlock := true }) "rand" .stdlib ∧
    SlipsIn { target := .c }
      (.block [.comment { text := "a \\", isBlock := false },
        .comment { text := "x\nrand", isBlock := true }]) "rand" .stdlib := by
  refine ⟨?_, ?_, ?_, ?_, ?_, ?_, ?_, ?_⟩ <;> decide +kernel

end Mistaken

end Retarget
