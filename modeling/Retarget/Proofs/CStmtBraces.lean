import Retarget.Proofs.CStmtWriting
import Retarget.Proofs.Wording

/-!
# C blocks are balanced

Every block of a C statement stands between a line that ends in an opening brace and one that begins
with a closing brace, and the two are indented alike.
-/

namespace Retarget

namespace Stmt

def Labelled (stmt : Stmt) : Prop :=
  ∀ labels ∈ stmt.caseLabels, labels ≠ []

instance decidableLabelled (stmt : Stmt) : Decidable stmt.Labelled :=
  inferInstanceAs (Decidable (∀ labels ∈ stmt.caseLabels, labels ≠ []))

end Stmt

namespace Braces

open Text

theorem clear_substitute {name : String} (clear : Clear name) (n : Nat) :
    Clear (Naming.substitute name n) := by
  have longer : Clear (name ++ "_var") := clear.append (by decide)
  unfold Naming.substitute
  split
  · exact longer
  · exact longer.append (clear_toString n)

theorem clear_freshName (table : SymbolTable) : Clear (table.freshName "i") := by
  obtain preferred | ⟨n, numbered⟩ := table.freshName_index
  · have letters : ∀ name ∈ ["i", "j", "k"], Clear name := by decide
    exact letters _ preferred
  · rw [numbered]
    have heads : Heads false "i" := by decide
    exact (heads.append (toString n)).clear

def braceless : Diction where
  admits := Admits
  substitute := clear_substitute
  index := clear_freshName
  bare := by
    intro kind text name shape _ shaped member
    refine Bool.eq_false_iff.mpr fun closing => ?_
    have isName := Degraded.isName_of_mem_names shaped member
    exact absurd (isName.letters _ (mem_of_closes closing)).2 (by decide)

def plainly : C.Manner where
  toDiction := braceless
  tidy := True
  braceless := fun _ _ fine => fine

end Braces

namespace C

open Text Attempt Braces

/-- A statement is rendered in lines whose braces are balanced, also where it is settled after a
refusal, if no name or numeral of the statement and no variable in scope is written with a closing
brace at its beginning. -/
theorem statement_braces_balanced {s : Stmt} {cx : Context} (clean : s.Over Admits)
    (labelled : s.Labelled) (symbols : ∀ symbol ∈ cx.symbols.symbols, Clear symbol.targetName) :
    (∀ lines after, (stmt s).run.run cx = .ok (.ok lines, after) → Balanced lines) ∧
      ∀ source lines after, (Target.c.renderStatement source s).run cx = .ok (lines, after) →
        Balanced lines := by
  have lists (caps : Caps) : MayList plainly 0 caps (stmt s) :=
    stmt_lists s clean (fun _ => labelled) 0
  have admits (caps : Caps) : plainly.cRule.Admits caps cx.symbols := fun symbol member =>
    ⟨symbols symbol member, fun array _ => .measured True.intro⟩
  refine ⟨fun lines after ends => ?_, fun source lines after ends => ?_⟩
  · obtain ⟨rows, rfl, laid⟩ := (lists _).rows_of_run (stmt_orderly s) (admits _) ends
    exact (laid.nests True.intro cx.layout).balanced
  · have settled : Lists plainly 0 after.capabilities (Target.c.renderStatement source s) :=
      settle_lists clean (fun _ _ => opens_construct clean) (lists _)
    obtain ⟨rows, rfl, laid⟩ :=
      settled.rows_of_run (Target.c.renderStatement_orderly source s) (admits _) ends
    exact (laid.nests True.intro cx.layout).balanced

/-- A loop around a case that declares something, a chain of comparisons and a copy, below a symbol
in scope. The last statement is no statement of C. -/
theorem statement_braces_balanced_loop :
    let one : Expr := .literal (.int "1")
    let s : Stmt := .whileLoop (.compare .lt (.ident "n") one)
      [.switch (.ident "n") [.mk [.value one, .default] [.declare "x" .int none, .breakStmt]],
        .switch (.ident "s") [.mk [.value (.literal (.string "a"))] [.expr (.ident "n")],
          .mk [.default] [.unsupported "yield" "x \x7b"]],
        .declareArray "b" .int 1 (.clone (.ident "a"))]
    let cx : Context := { target := .c, indent := 1, symbols := { inner :=
      [Symbol.scalar "n" .int, Symbol.scalar "s" .string, Symbol.array "a" .int 1 (some 2)] } }
    let lines := ["    while (n < 1) \x7b",
      "        switch (n) \x7b", "            case 1:", "            default: \x7b",
      "                int x = 0;", "                break;", "            \x7d", "        \x7d",
      "        if (strcmp(s, \"a\") == 0) \x7b", "            n;", "        \x7d else \x7b",
      "            // unsupported: yield", "        \x7d",
      "        int b[sizeof(a) / sizeof(a[0])];",
      "        for (int i = 0; i < sizeof(a) / sizeof(a[0]); i++) \x7b",
      "            b[i] = a[i];", "        \x7d", "    \x7d"]
    s.Over Admits ∧ s.Labelled ∧ (∀ symbol ∈ cx.symbols.symbols, Clear symbol.targetName) ∧
      ∃ result after, (stmt s).run.run cx = .ok (result, after) ∧ result = .ok lines ∧
        Balanced lines := by
  intro one s cx lines
  have facts : s.Over Admits ∧ s.Labelled ∧
      (∀ symbol ∈ cx.symbols.symbols, Clear symbol.targetName) ∧
        ∃ result after, (stmt s).run.run cx = .ok (result, after) ∧ result = .ok lines := by
    decide +kernel
  obtain ⟨clean, labelled, symbols, _, after, ends, rfl⟩ := facts
  have balanced := (statement_braces_balanced clean labelled symbols).1 lines after ends
  exact ⟨clean, labelled, symbols, _, after, ends, rfl, balanced⟩

/-- The leaves of a statement without comments whose unsupported kinds do not end in an opening
brace. -/
def Plain : Leaf → Prop
  | .remark _ => False
  | .source kind _ => opens kind = false
  | .name _ | .numeral _ | .letter _ | .text _ | .measured _ => True

instance decidablePlain : DecidablePred Plain
  | .remark _ => .isFalse not_false
  | .source kind _ => inferInstanceAs (Decidable (opens kind = false))
  | .name _ | .numeral _ | .letter _ | .text _ | .measured _ => .isTrue True.intro

/-- Such a statement is rendered in lines whose braces are not balanced. -/
def Unbalances (cx : Context) (s : Stmt) : Prop :=
  s.Over Plain ∧ s.Labelled ∧ ∃ result after, (stmt s).run.run cx = .ok (result, after) ∧
    ¬Balanced (result.toOption.getD [])

instance decidableUnbalances (cx : Context) (s : Stmt) : Decidable (Unbalances cx s) :=
  inferInstanceAs (Decidable (_ ∧ _ ∧ ∃ result after, _ = Except.ok (result, after) ∧ _))

/-- What can be taken for a closing brace: a name, a numeral, the output name of a variable in scope,
and the name of an array that a copy begins its lines with. -/
theorem statement_braces_unbalanced : Unbalances { target := .c } (.expr (.ident "\x7d")) ∧
    Unbalances { target := .c } (.expr (.literal (.int "\x7d"))) ∧
    Unbalances { target := .c, symbols :=
        { inner := [{ Symbol.scalar "x" .int with targetName := "\x7d" }] } }
      (.expr (.ident "x")) ∧
    Unbalances { target := .c, symbols := { inner := [Symbol.array "a" .int 1 none] } }
      (.declareArray "\x7d" .int 1 (.clone (.ident "a"))) := by decide +kernel

end C

end Retarget
