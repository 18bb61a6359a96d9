import Retarget.Proofs.Completion
import Retarget.Proofs.Declared

/-!
# What is read does not depend on the target

A conversion reads a statement and renders it before it reads the next one, so that the symbols a
statement is read with are those that rendering has left.
-/

namespace Retarget

open Render (bind_eq_ok)

variable {between : Context} {trailing : Option Node}

/-- A statement whose bare text declares a variable with a simple value is that declaration. -/
def Node.ReadsPlainly (node : Node) : Prop :=
  ∀ type name value, Degraded.shape? node.text = some (.declaration type name value) →
    Degraded.IsSimpleValue value → node.DeclaresPlain type name

/-- In a tree without errors, the statements of the entry point are read as their texts say. -/
def Tree.ReadsPlainly (tree : Tree) : Prop :=
  tree.hasError = false → ∀ body, tree.root.entryBody? = some body →
    ∀ node ∈ body.namedChildren, node.ReadsPlainly

/-- What a conversion comes to with a statement: what is read off its node, and the profiles of all
names after it. -/
structure Entry where
  lowered : Except LoweringError (Option Stmt)
  profile? : String → Option Profile

namespace Entry

/-- The node could be read, and no name is declared with two profiles. -/
def IsSettled (entry : Entry) : Prop :=
  match entry.lowered with
  | .ok found => ∀ stmt ∈ found, stmt.Consistent
  | .error _ => False

instance : DecidablePred IsSettled
  | ⟨.ok found, _⟩ => inferInstanceAs (Decidable (∀ stmt ∈ found, stmt.Consistent))
  | ⟨.error _, _⟩ => .isFalse id

end Entry

namespace Conversion

def entryOf (item : Item) (before after : Context) : Except Fault (Option Entry) := do
  match item with
  | .statement node _ =>
    let (lowered, _) ← (Lower.statement node).run.run before
    return some { lowered, profile? := fun name => (after.symbols.lookup name).map Symbol.profile }
  | _ => return none

def journalFrom (target : Target) : List Item → Context → Except Fault (List Entry)
  | [], _ => .ok []
  | item :: rest, cx => do
    let (_, after) ← (itemLines target item).run cx
    let entry ← entryOf item cx after
    let later ← journalFrom target rest after
    return entry.toList ++ later

/-- What the conversion of a body to a target makes of its items one after the other. -/
def journal (settings : Settings) (target : Target) (body : Node) : Except Fault (List Entry) :=
  journalFrom target (Item.listOf settings.maxBlankLines body)
    { target, settings, indent := target.baseIndent settings }

variable {target first second : Target} {item : Item} {items : List Item} {node : Node}
  {cx px after ended : Context} {lines : List String}

theorem comment_keeps (target : Target) (comment : Comment) :
    (target.renderStatement none (.comment comment)).Keeps [] :=
  target.renderStatement_keeps none (.comment comment) nofun (.done none)

theorem withTrailing_keeps (target : Target) (comment : Comment) (lines : List String) :
    (withTrailing target comment lines).Keeps [] := by
  unfold withTrailing
  split
  · exact comment_keeps target comment
  · refine (Render.Keeps.contained target Render.Steady.settings).bind fun settings => ?_
    split
    · exact .done _
    · exact .done _

theorem withTrailing_orderly (target : Target) (comment : Comment) (lines : List String) :
    (withTrailing target comment lines).Orderly target .declaring := by
  unfold withTrailing
  split
  · exact target.renderStatement_orderly none _
  · refine Render.Steady.settings.bind fun settings => ?_
    split
    · exact .done _
    · exact .done _

/-- After the lines of the statement itself only a comment is written. -/
theorem statementLines_of_item
    (run : (itemLines target (.statement node trailing)).run cx = .ok (lines, after)) :
    ∃ own between rendering, (statementLines target node).run cx = .ok (own, between) ∧
      Render.Orderly target .declaring rendering ∧ rendering.Keeps [] ∧
        rendering.run between = .ok (lines, after) := by
  cases trailing with
  | none => exact ⟨lines, after, .done lines, run, .done lines, .done lines, rfl⟩
  | some comment =>
    obtain ⟨own, between, made, ends⟩ := bind_eq_ok.mp run
    exact ⟨own, between, _, made, withTrailing_orderly target _ own,
      withTrailing_keeps target _ own, ends⟩

theorem degradedLine_keeps {stmt : Stmt} (plain : node.ReadsPlainly)
    (read : (Lower.statement node).run.run cx = .ok (.ok (some stmt), between)) :
    (Render.degradedLine target (some node.text) stmt).Keeps stmt.declarations := by
  unfold Render.degradedLine
  rw [(Lower.statement_leaves read).sourceText]
  refine Degraded.line_keeps (fun type name value shape simple => ?_) target
  obtain ⟨init, same⟩ :=
    Lower.statement_of_declaresPlain (plain type name value shape simple) _ _ _ read
  cases same
  exact List.mem_cons_self

theorem view_of_statementLines {found : Option Stmt} (plain : node.ReadsPlainly)
    (read : (Lower.statement node).run.run cx = .ok (.ok found, between))
    (consistent : ∀ stmt ∈ found, stmt.Consistent)
    (run : (statementLines target node).run cx = .ok (lines, after)) :
    after.symbols.view = between.symbols.view := by
  obtain ⟨part, middle, kept, rendered⟩ := bind_eq_ok.mp run
  obtain ⟨result, start, readAgain, settled⟩ := bind_eq_ok.mp kept
  cases read.symm.trans readAgain
  cases settled
  cases found with
  | none =>
    cases rendered
    rfl
  | some stmt =>
    have leaves := Lower.statement_leaves read
    have knows := leaves.has.knows (consistent stmt rfl)
    have keeps := target.renderStatement_keeps (some node.text) stmt leaves.flat
      (degradedLine_keeps plain read)
    exact keeps between lines after knows rendered

theorem view_of_statement {found : Option Stmt} (plain : node.ReadsPlainly)
    (read : (Lower.statement node).run.run cx = .ok (.ok found, between))
    (consistent : ∀ stmt ∈ found, stmt.Consistent)
    (run : (itemLines target (.statement node trailing)).run cx = .ok (lines, after)) :
    after.symbols.view = between.symbols.view := by
  obtain ⟨own, middle, _, made, -, keeps, ends⟩ := statementLines_of_item run
  exact (keeps middle lines after nofun ends).trans
    (view_of_statementLines plain read consistent made)

theorem lowered_of_run
    (run : (itemLines target (.statement node trailing)).run cx = .ok (lines, after)) :
    ∃ lowered between, (Lower.statement node).run.run cx = .ok (lowered, between) := by
  obtain ⟨own, between, _, made, -⟩ := statementLines_of_item run
  obtain ⟨part, middle, kept, -⟩ := bind_eq_ok.mp made
  obtain ⟨lowered, between, reading, -⟩ := bind_eq_ok.mp kept
  exact ⟨lowered, between, reading⟩

theorem view_of_other (other : ∀ node trailing, item ≠ .statement node trailing)
    (run : (itemLines target item).run cx = .ok (lines, after)) :
    after.symbols.view = cx.symbols.view := by
  cases item with
  | blank count =>
    cases run
    rfl
  | comment node => exact comment_keeps target _ cx lines after nofun run
  | statement node trailing => exact absurd rfl (other node trailing)

theorem entryOf_statement {lowered : Except LoweringError (Option Stmt)}
    (read : (Lower.statement node).run.run cx = .ok (lowered, between)) :
    entryOf (.statement node trailing) cx after = .ok (some
      { lowered, profile? := fun name => (after.symbols.lookup name).map Symbol.profile }) := by
  unfold entryOf
  dsimp only
  rw [read]
  rfl

theorem entryOf_of_run (run : (itemLines target item).run cx = .ok (lines, after)) :
    ∃ entry, entryOf item cx after = .ok entry := by
  cases item with
  | blank count => exact ⟨none, rfl⟩
  | comment node => exact ⟨none, rfl⟩
  | statement node trailing =>
    obtain ⟨lowered, between, read⟩ := lowered_of_run run
    exact ⟨_, entryOf_statement read⟩

theorem entryOf_step {others : List String} {entry : Option Entry}
    (plain : ∀ node trailing, item = .statement node trailing → node.ReadsPlainly)
    (same : cx.symbols.view = px.symbols.view)
    (run : (itemLines first item).run cx = .ok (lines, after))
    (twin : (itemLines second item).run px = .ok (others, ended))
    (made : entryOf item cx after = .ok entry)
    (settled : ∀ known, entry = some known → known.IsSettled) :
    entryOf item px ended = .ok entry ∧ after.symbols.view = ended.symbols.view := by
  have quiet (other : ∀ node trailing, item ≠ .statement node trailing) :
      after.symbols.view = ended.symbols.view :=
    (view_of_other other run).trans (same.trans (view_of_other other twin).symm)
  cases item with
  | blank count => exact ⟨made, quiet nofun⟩
  | comment node => exact ⟨made, quiet nofun⟩
  | statement node trailing =>
    obtain ⟨lowered, between, read⟩ := lowered_of_run run
    obtain ⟨loweredToo, meanwhile, readToo⟩ := lowered_of_run twin
    obtain ⟨alike, sameBetween, -⟩ := (Lower.statement_determined node).frame same read readToo
    rw [entryOf_statement read] at made
    cases made
    have consistent := settled _ rfl
    cases alike with
    | error error => exact absurd consistent id
    | ok sound =>
      obtain ⟨rfl, -⟩ := sound
      have view := view_of_statement (plain node trailing rfl) read consistent run
      have viewToo := view_of_statement (plain node trailing rfl) readToo consistent twin
      have sameAfter : after.symbols.view = ended.symbols.view :=
        view.trans (sameBetween.trans viewToo.symm)
      refine ⟨?_, sameAfter⟩
      rw [entryOf_statement readToo]
      simp only [SymbolTable.lookup_profile, sameAfter]

theorem journalFrom_cons {rest : List Item} {entry : Option Entry}
    (run : (itemLines target item).run cx = .ok (lines, after))
    (made : entryOf item cx after = .ok entry) : journalFrom target (item :: rest) cx =
      (journalFrom target rest after).map (entry.toList ++ ·) := by
  rw [journalFrom, run]
  change (entryOf item cx after >>= _) = _
  rw [made]
  cases journalFrom target rest after with
  | error fault => rfl
  | ok later => rfl

theorem journalFrom_of_run
    (run : (Render.concatMap (itemLines target) items).run cx = .ok (lines, after)) :
    ∃ entries, journalFrom target items cx = .ok entries := by
  induction items generalizing cx lines after with
  | nil => exact ⟨[], rfl⟩
  | cons item rest ih =>
    obtain ⟨own, between, itemRun, ends⟩ := bind_eq_ok.mp run
    obtain ⟨later, last, restRun, -⟩ := bind_eq_ok.mp ends
    obtain ⟨entry, made⟩ := entryOf_of_run itemRun
    obtain ⟨entries, recorded⟩ := ih restRun
    refine ⟨entry.toList ++ entries, ?_⟩
    rw [journalFrom_cons itemRun made, recorded]
    rfl

/-- Two conversions of the same items from the same view have the same journal, as long as what is
read is settled. -/
theorem journalFrom_eq {others : List String} {last final : Context} {entries : List Entry}
    (plain : ∀ node trailing, .statement node trailing ∈ items → node.ReadsPlainly)
    (run : (Render.concatMap (itemLines first) items).run cx = .ok (lines, last))
    (twin : (Render.concatMap (itemLines second) items).run px = .ok (others, final))
    (same : cx.symbols.view = px.symbols.view)
    (recorded : journalFrom first items cx = .ok entries)
    (settled : ∀ entry ∈ entries, entry.IsSettled) : journalFrom second items px = .ok entries := by
  induction items generalizing cx px lines others last final entries with
  | nil => exact recorded
  | cons item rest ih =>
    obtain ⟨own, between, itemRun, ends⟩ := bind_eq_ok.mp run
    obtain ⟨_, _, restRun, -⟩ := bind_eq_ok.mp ends
    obtain ⟨ownToo, meanwhile, itemTwin, endsToo⟩ := bind_eq_ok.mp twin
    obtain ⟨_, _, restTwin, -⟩ := bind_eq_ok.mp endsToo
    obtain ⟨entry, made⟩ := entryOf_of_run itemRun
    obtain ⟨later, recordedLater⟩ := journalFrom_of_run restRun
    rw [journalFrom_cons itemRun made, recordedLater] at recorded
    cases recorded
    obtain ⟨madeToo, sameBetween⟩ := entryOf_step
      (fun node trailing isItem => plain node trailing (isItem ▸ List.mem_cons_self))
      same itemRun itemTwin made
      (fun known isEntry => settled known (List.mem_append_left _ (by simp [isEntry])))
    rw [journalFrom_cons itemTwin madeToo, ih
      (fun node trailing member => plain node trailing (List.mem_cons_of_mem item member))
      restRun restTwin sameBetween recordedLater
      fun known member => settled known (List.mem_append_right _ member)]
    rfl

/-- The context in which the items of the entry point's body are taken up. -/
def opening (settings : Settings) (target : Target) (tree : Tree) : Context :=
  let start : Context := { target, settings }
  let begun := if tree.hasError then start.warn syntaxErrorMessage else start
  { begun with indent := target.baseIndent settings }

section Success

variable {settings : Settings} {source : String} {tree : Tree} {body : Node}
  (entry : tree.root.entryBody? = some body)
  (success : (convert settings target source tree).success = true)

include entry success

theorem items_of_success :
    ∃ lines after, (Render.concatMap (itemLines target)
      (Item.listOf settings.maxBlankLines body)).run (opening settings target tree) =
        .ok (lines, after) := by
  have bodied {begun cx : Context} {code : String} (same : begun.settings = settings)
      (run : (do return some (← bodyCode target body) : Render (Option String)).run begun =
        .ok (some code, cx)) :
      ∃ lines after, (Render.concatMap (itemLines target)
        (Item.listOf settings.maxBlankLines body)).run
          { begun with indent := target.baseIndent settings } = .ok (lines, after) := by
    obtain ⟨_, _, run, -⟩ := bind_eq_ok.mp run
    obtain ⟨_, _, read, run⟩ := bind_eq_ok.mp run
    cases read
    obtain ⟨_, _, indented, run⟩ := bind_eq_ok.mp run
    cases indented
    obtain ⟨lines, after, run, -⟩ := bind_eq_ok.mp run
    rw [same] at run
    exact ⟨lines, after, run⟩
  unfold convert at success
  split at success
  next code cx run =>
    unfold opening
    rw [treeCode, entry] at run
    cases broken : tree.hasError with
    | false =>
      rw [broken] at run
      exact bodied rfl run
    | true =>
      rw [broken] at run
      obtain ⟨_, _, warned, run⟩ := bind_eq_ok.mp run
      cases warned
      have kept := (Context.Frame.warn { target, settings } syntaxErrorMessage).settings
      exact bodied kept run
  next => cases success
  next => cases success

theorem run_of_success (clean : tree.hasError = false) :
    ∃ lines after, (Render.concatMap (itemLines target)
      (Item.listOf settings.maxBlankLines body)).run
        { target, settings, indent := target.baseIndent settings } = .ok (lines, after) := by
  have run := items_of_success entry success
  rw [opening, clean] at run
  exact run

end Success

end Conversion

namespace Sample

open Node renaming sample → part

def declarationOf (text kind type : String) (declarators : List Node) : Node :=
  part "local_variable_declaration" "" text (part kind "type" type [] :: declarators)

def declaratorOf (name : String) (rest : List Node) : Node :=
  part "variable_declarator" "declarator" name (part "identifier" "name" name [] :: rest)

/-- The statements `int grid[][]; long ticks = Clock.now(); var copy = ticks;`. -/
def timed : List Node := [
  declarationOf "int grid[][];" "integral_type" "int"
    [declaratorOf "grid" [part "dimensions" "dimensions" "[][]" []]],
  declarationOf "long ticks = Clock.now();" "integral_type" "long"
    [declaratorOf "ticks" [part "method_invocation" "value" "Clock.now()" [
      part "identifier" "object" "Clock" [], part "identifier" "name" "now" [],
      part "argument_list" "arguments" "()" []]]],
  declarationOf "var copy = ticks;" "type_identifier" "var"
    [declaratorOf "copy" [part "identifier" "value" "ticks" []]]]

/-- The statements `int x, x[][]; var y = x;`. -/
def twofold : List Node := [
  declarationOf "int x, x[][];" "integral_type" "int"
    [declaratorOf "x" [], declaratorOf "x" [part "dimensions" "dimensions" "[][]" []]],
  declarationOf "var y = x;" "type_identifier" "var"
    [declaratorOf "y" [part "identifier" "value" "x" []]]]

theorem programWith_readsPlainly {statements : List Node}
    (plain : ∀ node ∈ statements, node.ReadsPlainly) : (programWith statements).ReadsPlainly := by
  intro _ body entry node member
  cases (entryBody?_programWith statements).symm.trans entry
  exact plain node (List.mem_filter.mp member).1

theorem readsPlainly_of_shape?_none {node : Node} (shape : Degraded.shape? node.text = none) :
    node.ReadsPlainly := by
  intro type name value found
  rw [shape] at found
  cases found

theorem timed_readsPlainly : ∀ node ∈ timed, node.ReadsPlainly := by
  have clock : Degraded.shape? "long ticks = Clock.now();" =
      some (.declaration .long "ticks" (some "Clock.now()")) := by decide +kernel
  intro node member
  simp only [timed, List.mem_cons, List.not_mem_nil, or_false] at member
  rcases member with rfl | rfl | rfl
  · exact readsPlainly_of_shape?_none (by decide +kernel)
  · intro type name value found _
    cases clock.symm.trans found
    exact ⟨rfl, ⟨_, rfl, by decide, by decide⟩, ⟨_, rfl, rfl, rfl⟩⟩
  · exact readsPlainly_of_shape?_none (by decide +kernel)

theorem twofold_readsPlainly : ∀ node ∈ twofold, node.ReadsPlainly := by
  intro node member
  simp only [twofold, List.mem_cons, List.not_mem_nil, or_false] at member
  rcases member with rfl | rfl
  · exact readsPlainly_of_shape?_none (by decide +kernel)
  · exact readsPlainly_of_shape?_none (by decide +kernel)

end Sample

open Sample

/-- Conversions of a tree without errors to C and to Python read the same statements and know the
same names after each of them. -/
theorem journal_c_eq_python {settings : Settings} {source : String} {tree : Tree} {body : Node}
    (clean : tree.hasError = false) (entry : tree.root.entryBody? = some body)
    (plain : tree.ReadsPlainly) (c : (convert settings .c source tree).success = true)
    (python : (convert settings .python source tree).success = true) :
    ∃ entries, Conversion.journal settings .c body = .ok entries ∧
      ((∀ entry ∈ entries, entry.IsSettled) →
        Conversion.journal settings .python body = .ok entries) := by
  obtain ⟨lines, after, run⟩ := Conversion.run_of_success entry c clean
  obtain ⟨others, ended, twin⟩ := Conversion.run_of_success entry python clean
  obtain ⟨entries, recorded⟩ := Conversion.journalFrom_of_run run
  refine ⟨entries, recorded, fun settled => ?_⟩
  refine Conversion.journalFrom_eq (fun node trailing member => ?_) run twin rfl recorded settled
  exact plain clean body entry node (Item.mem_of_statement member)

/-- A declaration that only C refuses, and one that both targets take from its bare text. -/
theorem journal_c_eq_python_timed :
    (programWith timed).ReadsPlainly ∧ (convert {} .c "" (programWith timed)).success = true ∧
      (convert {} .python "" (programWith timed)).success = true ∧
      (Conversion.journal {} .c (bodyWith timed)).map (·.map fun entry => entry.profile? "copy") =
        .ok [none, none, some (.scalar .long)] ∧
      Conversion.journal {} .python (bodyWith timed) = Conversion.journal {} .c (bodyWith timed) := by
  have plain := programWith_readsPlainly timed_readsPlainly
  have c : (convert {} .c "" (programWith timed)).success = true := by decide +kernel
  have python : (convert {} .python "" (programWith timed)).success = true := by decide +kernel
  have settled : (Conversion.journal {} .c (bodyWith timed)).map (·.all (·.IsSettled)) =
      .ok true := by decide +kernel
  have copied : (Conversion.journal {} .c (bodyWith timed)).map
      (·.map fun entry => entry.profile? "copy") = .ok [none, none, some (.scalar .long)] := by
    decide +kernel
  obtain ⟨entries, recorded, same⟩ :=
    journal_c_eq_python rfl (entryBody?_programWith timed) plain c python
  refine ⟨plain, c, python, copied, ?_⟩
  rw [recorded] at settled ⊢
  refine same fun entry member => ?_
  exact of_decide_eq_true (List.all_eq_true.mp (Except.ok.inj settled) entry member)

/-- A name that is declared twice in one statement may end up with another profile in each target,
and what is read after that with it. -/
theorem journal_c_ne_python_twofold : (programWith twofold).hasError = false ∧
      (programWith twofold).root.entryBody? = some (bodyWith twofold) ∧
      (programWith twofold).ReadsPlainly ∧ (convert {} .c "" (programWith twofold)).success = true ∧
      (convert {} .python "" (programWith twofold)).success = true ∧
      (Conversion.journal {} .c (bodyWith twofold)).map (·.all (·.lowered.isOk)) = .ok true ∧
      Conversion.journal {} .python (bodyWith twofold) ≠
        Conversion.journal {} .c (bodyWith twofold) := by
  have c : (Conversion.journal {} .c (bodyWith twofold)).map
      (·.map fun entry => entry.profile? "y") = .ok [none, some (.scalar .int)] := by decide +kernel
  have python : (Conversion.journal {} .python (bodyWith twofold)).map
      (·.map fun entry => entry.profile? "y") = .ok [none, some (.scalar .unknown)] := by
    decide +kernel
  refine ⟨rfl, rfl, programWith_readsPlainly twofold_readsPlainly, by decide +kernel,
    by decide +kernel, by decide +kernel, fun same => ?_⟩
  rw [← same, python] at c
  revert c
  decide

end Retarget
