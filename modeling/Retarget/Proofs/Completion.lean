import Retarget.Conversion.Basic
import Retarget.Proofs.BlankLines
import Retarget.Proofs.LowerFrame

/-!
# Python conversions are completed

A statement that cannot be converted costs no more than itself, so the conversion of a tree that has
an entry point can only fail by a fault.
-/

namespace Retarget

open Text (maxInteger)

variable {node : Node}

namespace Node

def SignlessNumerals (node : Node) : Prop :=
  ∀ numeral ∈ node.nodes, numeral.isNumeral = true → '-' ∉ numeral.text.toList

def isGreatestLoop (node : Node) : Bool :=
  node.kind = "for_statement" && (node.child? "condition").any fun condition =>
    condition.nodes.any fun part => part.isNumeral && part.numeral.integer? = some maxInteger

end Node

namespace Conversion

open Lower (Fit AllFit Fits)

variable {room : Nat}

theorem fits_of_signless (height : node.height ≤ room) (signless : node.SignlessNumerals)
    (bounded : ∀ loop ∈ node.nodes, loop.isGreatestLoop = false) : Fits True room node := by
  refine ⟨fun _ numeral member isNumeral => ?_, fun _ loop member kind condition found => ?_, height⟩
  · exact Lexeme.number_within _ (signless numeral member isNumeral)
  · intro numeral below isNumeral n spelled
    have inside : numeral ∈ node.nodes :=
      Node.mem_nodes_trans (Node.mem_nodes_of_child? found below) node member
    obtain ⟨lower, upper⟩ := Lexeme.number_within _ (signless numeral inside isNumeral) n spelled
    have other : n ≠ maxInteger := by
      rintro rfl
      have free := bounded loop member
      simp only [Node.isGreatestLoop, kind, found, decide_true, Option.any_some, Bool.true_and,
        List.any_eq_false] at free
      exact free numeral below (by simp [isNumeral, spelled])
    exact ⟨lower, by omega⟩

theorem renderStatement_safe (source : Option String) (stmt : Stmt) (sound : stmt.Sound room) :
    (Target.python.renderStatement source stmt).Safe room :=
  (Render.settle_steady source stmt (Python.stmt_steady stmt (.inr sound))).safe

theorem statementLines_safe (fit : Fits True room node) : (statementLines .python node).Safe room := by
  refine (Lower.kept_reading node.info (Lower.regular node fit).statement).ends.bind
    fun part sound => ?_
  cases part with
  | none => exact .done trivial
  | some stmt => exact renderStatement_safe _ stmt sound

theorem withTrailing_safe (comment : Comment) (lines : List String) :
    (withTrailing .python comment lines).Safe room := by
  unfold withTrailing
  split
  · exact renderStatement_safe none (.comment comment) trivial
  · refine Render.Ends.settings.bind fun settings _ => ?_
    split
    · exact .done trivial
    · exact .done trivial

theorem itemLines_safe {item : Item}
    (fit : ∀ node trailing, item = .statement node trailing → Fits True room node) :
    (itemLines .python item).Safe room := by
  match item with
  | .blank count => exact .done trivial
  | .comment node => exact renderStatement_safe none (.comment _) trivial
  | .statement node none => exact statementLines_safe (fit node none rfl)
  | .statement node (some trailing) =>
    refine (statementLines_safe (fit node (some trailing) rfl)).bind fun lines _ => ?_
    exact withTrailing_safe _ lines

theorem bodyCode_ok {body : Node} (fit : ∀ node ∈ body.namedChildren, Fits True room node) (cx : Context)
    (roomy : { cx with indent := 0 }.HasRoom room) :
    ∃ code after, (bodyCode .python body).run cx = .ok (code, after) := by
  have lines : (Render.concatMap (itemLines .python)
      (Item.listOf cx.settings.maxBlankLines body)).Safe room :=
    Render.Ends.concatMap fun item member => itemLines_safe fun node trailing same =>
      fit node (Item.mem_of_statement (same ▸ member))
  obtain ⟨made, after, run, -⟩ := lines _ roomy
  refine ⟨Text.tidy cx.settings.maxBlankLines (Python.assemble after made), after, ?_⟩
  refine Render.bind_eq_ok.mpr ⟨cx.settings, cx, rfl, ?_⟩
  refine Render.bind_eq_ok.mpr ⟨(), { cx with indent := 0 }, rfl, ?_⟩
  exact Render.bind_eq_ok.mpr ⟨made, after, run, rfl⟩

theorem treeCode_ok {tree : Tree} {body : Node} (entry : tree.root.entryBody? = some body)
    (fit : ∀ node ∈ body.namedChildren, Fits True room node) (cx : Context)
    (roomy : { cx with indent := 0 }.HasRoom room) :
    ∃ code after, (treeCode .python tree).run cx = .ok (some code, after) := by
  have bodied (cx : Context) (roomy : { cx with indent := 0 }.HasRoom room) :
      ∃ code after, (do return some (← bodyCode .python body) : Render (Option String)).run cx =
        .ok (some code, after) := by
    obtain ⟨code, after, run⟩ := bodyCode_ok fit cx roomy
    exact ⟨code, after, Render.bind_eq_ok.mpr ⟨code, after, run, rfl⟩⟩
  simp only [treeCode, entry]
  split
  · have kept := (Context.Frame.warn cx syntaxErrorMessage).settings
    obtain ⟨code, after, run⟩ := bodied (cx.warn syntaxErrorMessage) (roomy.of_eq rfl kept)
    exact ⟨code, after, Render.bind_eq_ok.mpr ⟨(), _, rfl, run⟩⟩
  · exact bodied cx roomy

end Conversion

namespace Sample

open Node renaming sample → part

def loopTo (bound : String) : Node :=
  part "for_statement" "" "for" [
    part "local_variable_declaration" "init" "int i = 0;" [
      part "integral_type" "type" "int" [], part "variable_declarator" "declarator" "i = 0" [
        part "identifier" "name" "i" [], part "decimal_integer_literal" "value" "0" []]],
    part "binary_expression" "condition" "i <= bound" [
      part "identifier" "left" "i" [], part "<=" "operator" "<=" [] false,
      part "decimal_integer_literal" "right" bound []],
    part "update_expression" "update" "i++" [
      part "identifier" "" "i" [], part "++" "" "++" [] false],
    part "block" "body" "{ }" []]

def bodyWith (statements : List Node) : Node :=
  part "block" "body" "{ }" statements

def programWith (statements : List Node) : Tree where
  hasError := false
  root := part "program" "" "" [part "method_declaration" "" "" [
    part "modifiers" "" "public static" [], part "identifier" "name" "main" [],
    bodyWith statements]]

theorem entryBody?_programWith (statements : List Node) :
    (programWith statements).root.entryBody? = some (bodyWith statements) :=
  rfl

end Sample

open Sample

/-- A Python conversion of a tree that has an entry point succeeds, unless a loop of the program
runs to the greatest integer. -/
theorem convert_python_success {source : String} {tree : Tree} {body : Node}
    (entry : tree.root.entryBody? = some body) (shallow : body.height ≤ 1 <<< 60)
    (signless : body.SignlessNumerals)
    (bounded : ∀ loop ∈ body.nodes, loop.isGreatestLoop = false) :
    (convert {} .python source tree).success = true := by
  have fit : ∀ node ∈ body.namedChildren, Lower.Fits True body.height node := by
    obtain ⟨info, children⟩ := body
    have whole := Conversion.fits_of_signless (Nat.le_refl _) signless bounded
    exact fun node member => whole.below.wider.mem (List.mem_filter.mp member).1
  have roomy : ({ target := .python } : Context).HasRoom body.height := by
    simp only [Context.HasRoom, wordCount, maxTextSize]
    omega
  obtain ⟨code, after, run⟩ := Conversion.treeCode_ok entry fit { target := .python } roomy
  rw [convert, run]
  rfl

/-- A loop to the last integer but one is a range. -/
theorem convert_python_success_below_greatest :
    let loop := loopTo "9223372036854775806L"
    (programWith [loop]).root.entryBody? = some (bodyWith [loop]) ∧
      (bodyWith [loop]).SignlessNumerals ∧
      (∀ inner ∈ (bodyWith [loop]).nodes, inner.isGreatestLoop = false) ∧
      (convert {} .python "" (programWith [loop])).success = true := by
  intro loop
  have signless : (bodyWith [loop]).SignlessNumerals := by
    unfold Node.SignlessNumerals
    decide +kernel
  have bounded : ∀ inner ∈ (bodyWith [loop]).nodes, inner.isGreatestLoop = false := by
    decide +kernel
  have entry := entryBody?_programWith [loop]
  exact ⟨entry, signless, bounded, convert_python_success entry (by decide) signless bounded⟩

/-- A loop to the greatest integer takes the whole program down, which has an entry point. -/
theorem convert_python_overflow :
    let loop := loopTo "9223372036854775807L"
    (programWith [loop]).root.entryBody? = some (bodyWith [loop]) ∧
      (convert {} .python "" (programWith [loop])).failure = some (.fault .add) :=
  ⟨entryBody?_programWith _, by decide +kernel⟩

end Retarget
