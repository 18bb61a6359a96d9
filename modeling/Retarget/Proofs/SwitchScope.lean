import Retarget.Proofs.LowerFrame
import Retarget.Proofs.SwitchArms

/-!
# The scope of a switch

All cases of a switch are read in one scope, so that a case can use what an earlier one declares.
-/

namespace Retarget

open Render (bind_eq_ok line)

variable {discriminant : Expr}

/-- Some of the lines are what a body gives in an empty scope inside those of the context, where
each name means what it means in the context. -/
def WrittenApart (cx : Context) (body : Render (List String)) (lines : List String) : Prop :=
  ∃ before block rest start after, lines = before ++ block ++ rest ∧
    body.run start = .ok (block, after) ∧ start.symbols = cx.symbols.push ∧
    ∀ name, start.symbols.lookup name = cx.symbols.lookup name

namespace WrittenApart

variable {cx start after : Context} {body : Render (List String)} {lines : List String}

theorem of_nested (symbols : start.symbols = cx.symbols)
    (ends : (Render.nested body).run start = .ok (lines, after)) : WrittenApart cx body lines := by
  obtain ⟨_, _, inside, _⟩ := Render.run_indented_eq_ok ends
  obtain ⟨_, runs, _⟩ := Render.run_inScope_eq_ok inside
  have pushed : start.symbols.push = cx.symbols.push := congrArg SymbolTable.push symbols
  refine ⟨[], lines, [], _, _, by simp, runs, pushed, fun name => ?_⟩
  exact (congrArg (SymbolTable.lookup · name) pushed).trans rfl

theorem within (written : WrittenApart cx body lines) (before rest : List String) :
    WrittenApart cx body (before ++ lines ++ rest) := by
  obtain ⟨first, block, last, start, after, rfl, found⟩ := written
  exact ⟨before ++ first, block, last ++ rest, start, after, by simp, found⟩

theorem of_mem_flatten {blocks : List (List String)} {block : List String}
    (written : WrittenApart cx body block) (member : block ∈ blocks) :
    WrittenApart cx body blocks.flatten := by
  obtain ⟨before, rest, rfl⟩ := List.append_of_mem member
  simpa using written.within before.flatten rest.flatten

end WrittenApart

def CaseKept (case : Case) (rest : List Case) : Prop :=
  case.isDefault = true → ∀ later ∈ rest, later.isDefault = false

section Kept

variable {before rest : List Case} {case : Case}

theorem arm_mem_armsOf (plain : case.isDefault = false) :
    case.arm ∈ armsOf (before ++ case :: rest) := by
  rw [armsOf_append, armsOf_cons plain]
  simp

theorem fallbackOf_append (isDefault : case.isDefault = true) (kept : CaseKept case rest) :
    fallbackOf (before ++ case :: rest) = some case.arm.body := by
  have none : rest.filter Case.isDefault = [] := by simpa using kept isDefault
  rw [fallbackOf, List.filter_append, List.filter_cons_of_pos isDefault, none, List.getLast?_append]
  rfl

end Kept

namespace Python

variable {cx after : Context} {lines : List String} {body : Render (List String)}

theorem suite_writtenApart {header : String} {start : Context}
    (symbols : start.symbols = cx.symbols)
    (ends : (suite header body).run start = .ok (lines, after)) : WrittenApart cx body lines := by
  obtain ⟨first, between, opens, ends⟩ := bind_eq_ok.mp ends
  obtain ⟨inside, later, nests, ends⟩ := bind_eq_ok.mp ends
  obtain ⟨closed, _, closes, ends⟩ := bind_eq_ok.mp ends
  cases ends
  have opening : (line header).Orderly .python .contained := .line header
  have written := WrittenApart.of_nested ((opening.symbols_eq opens).trans symbols) nests
  unfold withPass at closes
  split at closes
  · obtain ⟨more, _, _, ends⟩ := bind_eq_ok.mp closes
    cases ends
    simpa using written.within [first] more
  · cases closes
    simpa using written.within [first] []

theorem armLines_writtenApart {text : String} {isFirst : Bool} {arm : Arm} {start : Context}
    (symbols : start.symbols = cx.symbols)
    (ends : (armLines text isFirst arm).run.run start = .ok (.ok lines, after)) :
    WrittenApart cx (stmts arm.body) lines := by
  obtain ⟨tests, between, tested, ends⟩ := Trial.bind_eq_ok.mp ends
  obtain ⟨_, _, ends, same⟩ := bind_eq_ok.mp ends
  cases same
  have symbols := ((tests_orderly text arm.tests).symbols_eq tested).trans symbols
  exact suite_writtenApart symbols ends

theorem switch_writtenApart {before rest : List Case} {case : Case} (kept : CaseKept case rest)
    (ends : (stmt (.switch discriminant (before ++ case :: rest))).run.run cx =
      .ok (.ok lines, after)) :
    WrittenApart cx (stmts case.arm.body) lines := by
  obtain ⟨text, blocks, start, chained, alike, ends⟩ := run_switch ends
  obtain ⟨last, _, finished, ends⟩ := bind_eq_ok.mp ends
  cases ends
  cases isDefault : case.isDefault with
  | false =>
    obtain ⟨block, member, _, _, _, alike, rendered⟩ :=
      chained.exists_block (arm_mem_armsOf isDefault)
    have written := armLines_writtenApart alike.symbols rendered
    simpa using (written.of_mem_flatten member).within [] last
  | true =>
    rw [fallbackOf_append isDefault kept, Option.getD_some] at finished
    simpa using (suite_writtenApart alike.symbols finished).within blocks.flatten []

end Python

namespace C

variable {cx after : Context} {lines : List String}

variable {start : Context} {before rest : List Case} {case : Case}

theorem armLines_writtenApart {text : String} {isFirst : Bool} {arm : Arm}
    (symbols : start.symbols = cx.symbols)
    (ends : (armLines text isFirst arm).run.run start = .ok (.ok lines, after)) :
    WrittenApart cx (stmts arm.body) lines := by
  obtain ⟨tests, tested, testRun, ends⟩ := Trial.bind_eq_ok.mp ends
  obtain ⟨header, opened, opens, ends⟩ := Trial.bind_eq_ok.mp ends
  obtain ⟨inside, _, nests, ends⟩ := Trial.bind_eq_ok.mp ends
  cases ends
  obtain ⟨_, _, nests, same⟩ := bind_eq_ok.mp nests
  cases same
  have symbols := ((tests_orderly text arm.tests).symbols_eq testRun).trans symbols
  have written := WrittenApart.of_nested (((header_orderly _).symbols_eq opens).trans symbols) nests
  simpa using written.within [header] []

theorem chainEnd_writtenApart {chain : List String} {body : Render (List String)}
    (symbols : start.symbols = cx.symbols)
    (ends : (chainEnd chain (some body)).run start = .ok (lines, after)) :
    WrittenApart cx body lines := by
  obtain ⟨header, opened, opens, ends⟩ := bind_eq_ok.mp ends
  obtain ⟨inside, closed, nests, ends⟩ := bind_eq_ok.mp ends
  obtain ⟨close, _, closes, ends⟩ := bind_eq_ok.mp ends
  cases ends
  have opening (text : String) : (line text).Orderly .c .contained := .line text
  have written := WrittenApart.of_nested (((opening _).symbols_eq opens).trans symbols) nests
  simpa using written.within (chain ++ [header]) [close]

theorem chainEnd_extends {chain : List String} {fallback : Option (Render (List String))}
    (ends : (chainEnd chain fallback).run start = .ok (lines, after)) :
    ∃ last, lines = chain ++ last := by
  cases fallback with
  | some body =>
    obtain ⟨header, _, _, ends⟩ := bind_eq_ok.mp ends
    obtain ⟨inside, _, _, ends⟩ := bind_eq_ok.mp ends
    obtain ⟨close, _, _, ends⟩ := bind_eq_ok.mp ends
    cases ends
    exact ⟨header :: inside ++ [close], by simp⟩
  | none =>
    cases chain with
    | nil =>
      cases ends
      exact ⟨[], rfl⟩
    | cons first rest =>
      obtain ⟨close, _, _, ends⟩ := bind_eq_ok.mp ends
      cases ends
      exact ⟨[close], rfl⟩

theorem stringSwitch_writtenApart
    (string : cx.symbols.typeOf discriminant = .string) (kept : CaseKept case rest)
    (ends : (stmt (.switch discriminant (before ++ case :: rest))).run.run cx =
      .ok (.ok lines, after)) :
    WrittenApart cx (stmts case.arm.body) lines := by
  obtain ⟨text, blocks, start, chained, alike, ends⟩ := run_stringSwitch string ends
  cases isDefault : case.isDefault with
  | false =>
    obtain ⟨last, rfl⟩ := chainEnd_extends ends
    obtain ⟨block, member, _, _, _, alike, rendered⟩ :=
      chained.exists_block (arm_mem_armsOf isDefault)
    have written := armLines_writtenApart alike.symbols rendered
    simpa using (written.of_mem_flatten member).within [] last
  | true =>
    rw [fallbackOf_append isDefault kept] at ends
    exact chainEnd_writtenApart alike.symbols ends

theorem labelledLines_writtenApart {labels : List String} {declares : Bool}
    {body : Render (List String)} (symbols : start.symbols = cx.symbols)
    (ends : (labelledLines labels declares body).run start = .ok (lines, after)) :
    WrittenApart cx body lines := by
  obtain ⟨_, _, ends, _⟩ := Render.run_indented_eq_ok ends
  obtain ⟨first, labelled, labelRun, ends⟩ := bind_eq_ok.mp ends
  obtain ⟨inside, closed, nests, ends⟩ := bind_eq_ok.mp ends
  have labelling : (labelLines declares labels).Orderly .c .contained :=
    labelLines_orderly declares labels
  have written := WrittenApart.of_nested ((labelling.symbols_eq labelRun).trans symbols) nests
  cases declares with
  | true =>
    obtain ⟨close, _, _, ends⟩ := bind_eq_ok.mp ends
    cases ends
    exact written.within first close
  | false =>
    cases ends
    exact written.within first []

theorem nativeCases_writtenApart
    (symbols : start.symbols = cx.symbols)
    (ends : (nativeCases (before ++ case :: rest)).run.run start = .ok (.ok lines, after)) :
    WrittenApart cx (stmts case.body) lines := by
  induction before generalizing start lines with
  | nil =>
    obtain ⟨labels, body⟩ := case
    obtain ⟨first, between, caseRun, ends⟩ := Trial.bind_eq_ok.mp ends
    obtain ⟨others, _, _, ends⟩ := Trial.bind_eq_ok.mp ends
    cases ends
    obtain ⟨texts, labelled, labelRun, caseRun⟩ := Trial.bind_eq_ok.mp caseRun
    obtain ⟨_, _, caseRun, same⟩ := bind_eq_ok.mp caseRun
    cases same
    have labelling : (labels.mapM labelText).Orderly .c .contained :=
      .mapM labelText_orderly labels
    have symbols := (labelling.symbols_eq labelRun).trans symbols
    exact (labelledLines_writtenApart symbols caseRun).within [] others
  | cons earlier before ih =>
    obtain ⟨labels, body⟩ := earlier
    obtain ⟨first, between, caseRun, ends⟩ := Trial.bind_eq_ok.mp ends
    obtain ⟨others, _, later, ends⟩ := Trial.bind_eq_ok.mp ends
    cases ends
    have rendering : (caseLines labels (body.any isDeclaration) (stmts body)).Orderly .c
        .contained := caseLines_orderly labels _ (stmts_orderly body)
    simpa using (ih ((rendering.symbols_eq caseRun).trans symbols) later).within first []

theorem nativeSwitch_writtenApart
    (other : cx.symbols.typeOf discriminant ≠ .string)
    (ends : (stmt (.switch discriminant (before ++ case :: rest))).run.run cx =
      .ok (.ok lines, after)) :
    WrittenApart cx (stmts case.body) lines := by
  obtain ⟨header, inside, close, _, _, rfl, alike, ends⟩ := run_nativeSwitch other ends
  simpa using (nativeCases_writtenApart alike.symbols ends).within [header] [close]

end C

theorem Scope.Grown.names_subset {names : String → Prop} {scope later : Scope}
    (grown : Scope.Grown names scope later) :
    scope.map Symbol.sourceName ⊆ later.map Symbol.sourceName := by
  induction grown with
  | same => exact fun _ member => member
  | insert _ symbol _ _ ih => exact fun _ member => Scope.names_subset_insert _ symbol (ih member)

namespace Lower

theorem cases_append (first second : List Node) (list : CaseList) :
    cases list (first ++ second) = cases list first >>= fun middle => cases middle second := by
  induction first generalizing list with
  | nil => rw [List.nil_append, cases, pure_bind]
  | cons child rest ih =>
    rw [List.cons_append, cases, cases]
    simp only [ih]
    split
    · rfl
    · split
      · rw [bind_assoc]
      · split
        · rw [bind_assoc]
        · split
          · rfl
          · rfl

theorem cases_share_scope {first second : List Node} {list result : CaseList} {cx after : Context}
    (ends : (cases list (first ++ second)).run.run cx = .ok (.ok result, after)) :
    ∃ middle between, (cases list first).run.run cx = .ok (.ok middle, between) ∧
      (cases middle second).run.run between = .ok (.ok result, after) ∧
      between.symbols.outer = cx.symbols.outer ∧
      between.symbols.inner.map Symbol.sourceName ⊆ after.symbols.inner.map Symbol.sourceName := by
  obtain ⟨middle, between, begun, ends⟩ := Trial.bind_eq_ok.mp (cases_append .. ▸ ends)
  obtain ⟨-, -, firstFrame⟩ := (cases_determined list first).frame rfl begun begun
  obtain ⟨-, -, secondFrame⟩ := (cases_determined middle second).frame rfl ends ends
  exact ⟨middle, between, begun, ends, firstFrame.outer, secondFrame.inner.names_subset⟩

end Lower

/-- Each case of a switch is rendered with the symbols that were in scope before the switch,
whatever the cases before it declare, while all cases are read in one scope. -/
theorem cases_rendered_apart (discriminant : Expr) (before rest : List Case) (case : Case)
    (cx after : Context) (lines : List String) : (CaseKept case rest →
      (Python.stmt (.switch discriminant (before ++ case :: rest))).run.run cx =
        .ok (.ok lines, after) →
      WrittenApart cx (Python.stmts (withoutFinalBreak case.body)) lines) ∧
    (CaseKept case rest → cx.symbols.typeOf discriminant = .string →
      (C.stmt (.switch discriminant (before ++ case :: rest))).run.run cx = .ok (.ok lines, after) →
      WrittenApart cx (C.stmts (withoutFinalBreak case.body)) lines) ∧
    (cx.symbols.typeOf discriminant ≠ .string →
      (C.stmt (.switch discriminant (before ++ case :: rest))).run.run cx = .ok (.ok lines, after) →
      WrittenApart cx (C.stmts case.body) lines) ∧
    ∀ (first second : List Node) (list result : Lower.CaseList),
      (Lower.cases list (first ++ second)).run.run cx = .ok (.ok result, after) →
      ∃ middle between, (Lower.cases list first).run.run cx = .ok (.ok middle, between) ∧
        (Lower.cases middle second).run.run between = .ok (.ok result, after) ∧
        between.symbols.outer = cx.symbols.outer ∧ between.symbols.inner.map Symbol.sourceName ⊆
          after.symbols.inner.map Symbol.sourceName :=
  ⟨Python.switch_writtenApart, fun kept string => C.stringSwitch_writtenApart string kept,
    C.nativeSwitch_writtenApart, fun _ _ _ _ => Lower.cases_share_scope⟩

/-- The second case halves a variable that was declared before the switch; the first one declares
another of that name. -/
theorem cases_rendered_apart_hidden :
    let digits (text : String) : Expr := .literal (.int text)
    let first : Case :=
      .mk [.value (digits "1")] [.declare "x" .double (some (digits "7")), .breakStmt]
    let halved : Stmt :=
      .expr (.assign .plain (.ident "x") (.binary .div (.ident "x") (digits "2")))
    let second : Case := .mk [.value (digits "2")] [halved, .breakStmt]
    let cx : Context :=
      { target := .python, symbols := { inner := [.scalar "n" .int, .scalar "x" .int] } }
    ∃ result after,
      (Python.stmt (.switch (.ident "n") ([first] ++ second :: []))).run.run cx =
        .ok (result, after) ∧
      result = .ok ["if n == 1:", "    x = 7.0", "elif n == 2:", "    x = x // 2", "else:",
        "    pass"] ∧
      WrittenApart cx (Python.stmts [halved])
        ["if n == 1:", "    x = 7.0", "elif n == 2:", "    x = x // 2", "else:", "    pass"] := by
  intro digits first halved second cx
  have run : ∃ result after,
      (Python.stmt (.switch (.ident "n") ([first] ++ second :: []))).run.run cx =
        .ok (result, after) ∧
      result = .ok ["if n == 1:", "    x = 7.0", "elif n == 2:", "    x = x // 2", "else:",
        "    pass"] := by decide +kernel
  obtain ⟨_, after, rendered, rfl⟩ := run
  have kept : CaseKept second [] := fun _ _ member => by cases member
  exact ⟨_, after, rendered, rfl,
    (cases_rendered_apart (.ident "n") [first] [] second cx after _).1 kept rendered⟩

/-- A name that one case declares is unknown in the next: it loses the identifier that was chosen
for it, and its division is no longer that of integers. -/
theorem declared_case_unknown :
    let digits (text : String) : Expr := .literal (.int text)
    let cases (name : String) : List Case :=
      [.mk [.value (digits "1")] [.declare name .int (some (digits "7")), .breakStmt],
        .mk [.value (digits "2")]
          [.expr (.assign .plain (.ident name) (.binary .div (.ident name) (digits "2"))),
            .breakStmt]]
    let symbols : SymbolTable := { inner := [.scalar "n" .int, .scalar "s" .string] }
    (∃ result after,
      (Python.stmt (.switch (.ident "n") (cases "str"))).run.run { target := .python, symbols } =
        .ok (result, after) ∧
      result = .ok ["if n == 1:", "    str_var = 7", "elif n == 2:", "    str = str / 2", "else:",
        "    pass"]) ∧
    (∃ result after,
      (C.stmt (.switch (.ident "n") (cases "bool"))).run.run { target := .c, symbols } =
        .ok (result, after) ∧
      result = .ok ["switch (n) \x7b", "    case 1: \x7b", "        int bool_var = 7;",
        "        break;", "    \x7d", "    case 2:", "        bool = bool / 2;", "        break;",
        "\x7d"]) ∧
    ∃ result after,
      (C.stmt (.switch (.ident "s") (cases "bool"))).run.run { target := .c, symbols } =
        .ok (result, after) ∧
      result = .ok ["if (strcmp(s, 1) == 0) \x7b", "    int bool_var = 7;",
        "\x7d else if (strcmp(s, 2) == 0) \x7b", "    bool = bool / 2;", "\x7d"] := by
  decide +kernel

end Retarget
