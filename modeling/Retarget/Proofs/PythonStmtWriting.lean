import Retarget.Proofs.Nesting
import Retarget.Proofs.PythonLineWriting

/-!
# Python statements are laid out in blocks

The lines of a statement are, in any layout, the rows of a well nested block, and each row is
written as a header or as a line that is none.
-/

namespace Retarget

open List (forall_mem_append)

variable {keyword : Keyword} {update : List Expr} {text header : String} {condition : Option Expr}

def Keyword.opening : Keyword → String
  | .if => "if "
  | elif => "elif "
  | .else => "else"
  | .for => "for "
  | .while => "while "

namespace Python

open Text Attempt

inductive Header (admits : Leaf → Prop) (caps : Caps) (keyword : Keyword) : String → Prop
  where
  | bare : Header admits caps keyword (keyword.opening ++ ":")
  | test {text : String} (tested : keyword ≠ .else) (spelled : Spelled admits caps text) :
      Header admits caps keyword (keyword.opening ++ text ++ ":")

inductive Written (admits : Leaf → Prop) (caps : Caps) : Row → Prop where
  | line {depth : Nat} {text : String} (line : Line admits caps text) :
      Written admits caps { depth, text }
  | header {depth : Nat} {text : String} {keyword : Keyword}
      (header : Header admits caps keyword text) :
      Written admits caps { depth, text, header := some keyword }

structure InShape (admits : Leaf → Prop) (shape : List Row → Prop) (caps : Caps)
    (rows : List Row) : Prop where
  shaped : shape rows
  written : ∀ row ∈ rows, Written admits caps row

variable {admits : Leaf → Prop} {caps : Caps} {level : Nat} {rows more : List Row}
  {shape : List Row → Prop}

namespace InShape

theorem weaken {wider : List Row → Prop} (inShape : InShape admits shape caps rows)
    (implies : shape rows → wider rows) : InShape admits wider caps rows :=
  ⟨implies inShape.shaped, inShape.written⟩

theorem append {second whole : List Row → Prop} (inShape : InShape admits shape caps rows)
    (inSecond : InShape admits second caps more)
    (implies : shape rows → second more → whole (rows ++ more)) :
    InShape admits whole caps (rows ++ more) where
  shaped := implies inShape.shaped inSecond.shaped
  written := forall_mem_append.mpr ⟨inShape.written, inSecond.written⟩

theorem nil : InShape admits (Row.WellNested level) caps [] :=
  ⟨.nil level, by simp⟩

theorem line {text : String} (line : Line admits caps text) :
    InShape admits (Row.WellNested level) caps [{ depth := level, text }] :=
  ⟨.plain level text, by simpa using Written.line line⟩

end InShape

theorem isSilent_line (layout : Layout) (row : Row) :
    isSilent (row.line layout) = row.isSilent := by
  have blank : ∀ c ∈ (layout.margin row.depth).toList, isBlank c = true := by
    intro c member
    rw [Layout.margin, String.toList_ofList] at member
    rw [List.eq_of_mem_replicate member]
    decide
  rw [Row.isSilent, isSilent, isSilent, Row.line, String.toList_append,
    List.dropWhile_append_of_pos blank]

theorem all_isSilent_lines (rows : List Row) (layout : Layout) :
    (Row.lines rows layout).all isSilent = rows.all Row.isSilent := by
  simp [Row.lines, List.all_map, Function.comp_def, isSilent_line]

variable {diction : Diction}

def Builds (diction : Diction) (level : Nat) (caps : Caps)
    (rendering : Render (List String)) (shape : List Row → Prop) : Prop :=
  rendering.Lays diction.pythonRule level caps (InShape diction.admits shape caps)

/-- An attempt lays out written rows in some shape, unless it refuses. -/
def MayBuild (diction : Diction) (level : Nat) (caps : Caps)
    (attempt : Attempt (List String)) (shape : List Row → Prop) : Prop :=
  attempt.Lays diction.pythonRule level caps (InShape diction.admits shape caps)

abbrev Nests (diction : Diction) (level : Nat) (caps : Caps)
    (rendering : Render (List String)) : Prop :=
  Builds diction level caps rendering (Row.WellNested level)

abbrev MayNest (diction : Diction) (level : Nat) (caps : Caps)
    (attempt : Attempt (List String)) : Prop :=
  MayBuild diction level caps attempt (Row.WellNested level)

theorem Builds.weaken {rendering : Render (List String)} {wider : List Row → Prop}
    (builds : Builds diction level caps rendering shape)
    (implies : ∀ rows, shape rows → wider rows) : Builds diction level caps rendering wider := by
  have writes : Render.Writes diction.pythonRule level caps (fun _ => rendering)
      (InRows (InShape diction.admits shape caps)) := builds
  apply writes.mono
  rintro _ ⟨rows, rfl, inShape⟩
  exact ⟨rows, rfl, inShape.weaken (implies rows)⟩

section Blocks

theorem InShape.speaking (inShape : InShape admits (Row.WellNested level) caps rows)
    (loud : ¬rows.all Row.isSilent = true) : InShape admits (Row.Speaking level) caps rows := by
  apply inShape.weaken
  intro nested
  obtain ⟨row, member, speaks⟩ := List.all_eq_false.mp (Bool.not_eq_true _ ▸ loud)
  exact ⟨nested, row, member, Bool.not_eq_true _ ▸ speaks⟩

theorem InShape.statement (known : text ∈ ownTexts) (speaks : Python.isSilent text = false) :
    InShape admits (Row.Speaking level) caps [{ depth := level, text }] :=
  (InShape.line (.spelled (.own known))).weaken fun nested =>
    ⟨nested, _, List.mem_cons_self, speaks⟩

theorem InShape.withPass (inShape : InShape admits (Row.WellNested level) caps rows) :
    InShape admits (Row.Speaking level) caps (rows ++ [{ depth := level, text := "pass" }]) :=
  inShape.append (.statement (by decide) (by decide)) Row.WellNested.append_speaking

theorem withPass_writes {rows : List Row}
    (inShape : InShape diction.admits (Row.WellNested (level + 1)) caps rows) :
    Render.Writes diction.pythonRule level caps (fun layout => withPass (Row.lines rows layout))
      (InRows (InShape diction.admits (Row.Speaking (level + 1)) caps)) := by
  unfold withPass
  simp only [all_isSilent_lines]
  by_cases silent : rows.all Row.isSilent = true
  · simp only [if_pos silent]
    have pass : (Render.oneLine "pass").Lays diction.pythonRule (level + 1) caps fun rows =>
        rows = [{ depth := level + 1, text := "pass" }] :=
      Render.Lays.oneLine rfl
    apply (Render.Writes.indented pass).bind
    rintro _ ⟨_, rfl, rfl⟩
    exact .rows _ (fun layout => (Row.lines_append _ _ layout).symm) inShape.withPass
  · simp only [if_neg silent]
    exact .rows rows (fun _ => rfl) (inShape.speaking silent)

theorem InShape.suite (headed : Header admits caps keyword header)
    (inShape : InShape admits (Row.Speaking (level + 1)) caps rows) :
    InShape admits (Row.IsSuite level keyword) caps
      ({ depth := level, text := header, header := some keyword } :: rows) where
  shaped := .intro inShape.shaped
  written := List.forall_mem_cons.mpr ⟨.header headed, inShape.written⟩

theorem suite_builds {body : Render (List String)}
    (headed : Header diction.admits caps keyword header)
    (builds : Nests diction (level + 1) caps body) :
    Builds diction level caps (suite header body) (Row.IsSuite level keyword) := by
  apply Render.line_bind
  apply (Render.Lays.nested builds).bind
  intro rows inShape
  apply (withPass_writes inShape).bind
  rintro _ ⟨inside, rfl, speaking⟩
  refine .rows _ ?_ (.suite headed speaking)
  intro layout
  rfl

end Blocks

section Loops

variable {body : Render (List String)}

theorem header_test (tested : keyword ≠ .else) (spelled : Spelled admits caps text)
    (same : header = keyword.opening ++ text ++ ":") : Header admits caps keyword header :=
  same ▸ .test tested spelled

theorem loop_builds (headed : Header diction.admits caps keyword header)
    (begins : keyword.continues = false)
    (builds : Nests diction (level + 1) caps body) :
    MayNest diction level caps (liftM (suite header body)) :=
  Lays.lift ((suite_builds headed builds).weaken fun _ isSuite => isSuite.wellNested begins)

theorem rangeLines_builds {loop : Counting} (fine : diction.admits (.name loop.name))
    (overStart : loop.start.Over diction.admits) (overBound : loop.bound.Over diction.admits)
    (builds : Nests diction (level + 1) caps body) :
    MayNest diction level caps (rangeLines loop body) := by
  apply (rangeArgs_spells overStart overBound).bind
  intro args spelled
  apply Writes.inScope
  apply (Says.lift (declareFor_said fine)).bind
  intro name fineName
  have counted : Spelled diction.admits caps (name ++ " in range(" ++ args ++ ")") :=
    .tail (by decide) (.joint (by decide) (.name fineName) spelled)
  have headed : Header diction.admits caps .for ("for " ++ name ++ " in range(" ++ args ++ "):") :=
    header_test (by decide) counted (by simp [Keyword.opening, String.append_assoc])
  exact loop_builds headed rfl builds

theorem updateLines_builds (clean : ∀ leaf ∈ Expr.leavesOf update, diction.admits leaf) :
    MayNest diction level caps (updateLines update) := by
  induction update with
  | nil => exact .rows [] (fun _ => rfl) .nil
  | cons e rest ih =>
    obtain ⟨overFirst, overRest⟩ := forall_mem_append.mp clean
    apply (exprStatement_spells overFirst).bind
    intro text spelled
    apply line_bind
    apply (ih overRest).bind
    intro rows inShape
    have first : InShape diction.admits (Row.WellNested level) caps [{ depth := level, text }] :=
      .line (.spelled spelled)
    refine .rows _ ?_ (first.append inShape .append)
    intro layout
    rfl

theorem bodyWithUpdates_writes {inside : List Row}
    (inShape : InShape diction.admits (Row.WellNested (level + 1)) caps inside)
    (clean : ∀ leaf ∈ Expr.leavesOf update, diction.admits leaf) :
    Writes diction.pythonRule level caps
      (fun layout => bodyWithUpdates (Row.lines inside layout) update)
      (InRows (InShape diction.admits (Row.Speaking (level + 1)) caps)) := by
  apply Writes.indented
  apply (updateLines_builds clean).bind
  intro rows updates
  have whole : InShape diction.admits (Row.WellNested (level + 1)) caps (inside ++ rows) :=
    inShape.append updates .append
  simp only [← Row.lines_append, all_isSilent_lines]
  apply Writes.ite
  · intro _
    have pass : Lays diction.pythonRule (level + 1) caps (liftM (Render.oneLine "pass"))
        fun rows => rows = [{ depth := level + 1, text := "pass" }] :=
      Lays.oneLine rfl
    apply pass.bind
    rintro _ rfl
    exact Writes.rows _ (fun layout => (Row.lines_append _ _ layout).symm) whole.withPass
  · intro loud
    exact Writes.rows _ (fun _ => rfl) (whole.speaking loud)

theorem loopTest_spells (clean : ∀ e ∈ condition, e.Over diction.admits) :
    Spells diction level caps (loopTest condition) := by
  cases condition with
  | some e => exact expr_spells e (clean e rfl)
  | none => exact .pure (.own (by decide))

theorem whileLines_builds {init : Render (List String)}
    (begins : Nests diction level caps init)
    (overCondition : ∀ e ∈ condition, e.Over diction.admits)
    (overUpdate : ∀ leaf ∈ Expr.leavesOf update, diction.admits leaf)
    (builds : Nests diction (level + 1) caps body) :
    MayNest diction level caps (whileLines init condition update body) := by
  apply Writes.inScope
  apply (Lays.lift begins).bind
  intro first inFirst
  apply (loopTest_spells overCondition).bind
  intro test spelled
  apply line_bind
  apply (Lays.lift (.nested builds)).bind
  intro rows inBody
  apply (bodyWithUpdates_writes inBody overUpdate).bind
  rintro _ ⟨inside, rfl, speaking⟩
  have headed : Header diction.admits caps .while ("while " ++ test ++ ":") :=
    .test (by decide) spelled
  have whole := inFirst.append
    (.suite headed speaking) fun nested isSuite => nested.append (isSuite.wellNested rfl)
  refine .rows _ ?_ whole
  intro layout
  rw [Row.lines_append]
  rfl

theorem forEachLines_builds {name : String} {iterable : Expr} (type : ValueType)
    (fine : diction.admits (.name name)) (clean : iterable.Over diction.admits)
    (builds : Nests diction (level + 1) caps body) :
    MayNest diction level caps (forEachLines type name iterable body) := by
  apply Says.symbols.bind
  intro table _
  apply (expr_spells iterable clean).bind
  intro text spelled
  apply Writes.inScope
  apply Writes.ite
  -- The symbols of an array and a scalar are declared alike.
  all_goals
    intro _
    apply (Says.lift (declareFor_said fine)).bind
    intro target fineTarget
    have walked : Spelled diction.admits caps (target ++ " in " ++ text) :=
      .joint (by decide) (.name fineTarget) spelled
    have headed : Header diction.admits caps .for ("for " ++ target ++ " in " ++ text ++ ":") :=
      header_test (by decide) walked (by simp [Keyword.opening, String.append_assoc])
    exact loop_builds headed rfl builds

theorem exitLines_builds {test : String} (spelled : Spelled diction.admits caps test) :
    MayBuild diction level caps (Attempt.indented do
      let exit ← Render.line ("if " ++ test ++ ":")
      let leave ← Attempt.indented (Render.line "break")
      return [exit, leave]) (Row.Speaking (level + 1)) := by
  apply Writes.indented
  apply line_bind
  apply (Writes.indented (Writes.lift (Render.Writes.line fun _ => "break"))).bind
  rintro _ rfl
  have headed : Header diction.admits caps .if ("if " ++ test ++ ":") :=
    .test (by decide) spelled
  have leave : InShape diction.admits (Row.Speaking (level + 1 + 1)) caps
      [{ depth := level + 1 + 1, text := "break" }] :=
    .statement (by decide) (by decide)
  obtain ⟨row, member, speaks⟩ := leave.shaped.speaks
  have whole := (InShape.suite headed leave).weaken fun isSuite =>
    Row.Speaking.mk (isSuite.wellNested rfl) ⟨row, List.mem_cons_of_mem _ member, speaks⟩
  refine Writes.rows _ ?_ whole
  intro layout
  rfl

theorem doWhileLines_builds {condition : Expr} (clean : condition.Over diction.admits)
    (hasContinue : Bool)
    (builds : Nests diction (level + 1) caps body) :
    MayNest diction level caps (doWhileLines condition hasContinue body) := by
  have looped : MayNest diction level caps (do
      let test ← exitTest condition
      let header ← Render.line "while True:"
      let inside ← Render.nested body
      let tail ← Attempt.indented do
        let exit ← Render.line ("if " ++ test ++ ":")
        let leave ← Attempt.indented (Render.line "break")
        return [exit, leave]
      return header :: inside ++ tail) := by
    apply (exitTest_spells clean).bind
    intro test spelled
    apply line_bind
    apply (Lays.lift (.nested builds)).bind
    intro rows inBody
    apply (exitLines_builds spelled).bind
    intro tail inTail
    have headed : Header diction.admits caps .while "while True:" :=
      header_test (by decide) (.own (by decide) : Spelled diction.admits caps "True") (by decide)
    have inside : InShape diction.admits (Row.Speaking (level + 1)) caps (rows ++ tail) :=
      inBody.append inTail fun nested speaking => nested.append_speaking speaking
    refine .rows _ ?_ ((InShape.suite headed inside).weaken
      fun isSuite => isSuite.wellNested rfl)
    intro layout
    rw [Row.lines_cons, Row.lines_append]
    rfl
  apply Writes.ite
  · intro _
    apply (Writes.lift (.warn _)).bind
    intro _ _
    exact looped
  · intro _
    exact looped

theorem counting?_parts {init : Option Stmt} {block : List Stmt} {loop : Counting}
    (found : counting? init condition update block = .ok (some loop)) :
    init = some (.declare loop.name loop.type (some loop.start)) ∧
      ∃ left, condition = some (.compare loop.op left loop.bound) := by
  unfold counting? at found
  split at found
  next name type start op left bound change =>
    split at found
    · cases stepped : stepOf name change with
      | error fault =>
        rw [stepped] at found
        cases found
      | ok step =>
        rw [stepped] at found
        cases step with
        | none => cases found
        | some step =>
          dsimp only [bind, Except.bind] at found
          split at found
          · cases found
            exact ⟨rfl, left, rfl⟩
          · cases found
    · cases found
  next => cases found

theorem forLines_builds {init : Option Stmt} {first : Render (List String)} (block : List Stmt)
    (begins : Nests diction level caps first)
    (overInit : ∀ s ∈ init, s.Over diction.admits)
    (overCondition : ∀ e ∈ condition, e.Over diction.admits)
    (overUpdate : ∀ leaf ∈ Expr.leavesOf update, diction.admits leaf)
    (builds : Nests diction (level + 1) caps body) :
    MayNest diction level caps (forLines init condition update block first body) := by
  apply (Says.ofExcept (counting? init condition update block)).bind
  intro counting found
  cases counting with
  | some loop =>
    obtain ⟨rfl, left, rfl⟩ := counting?_parts found
    obtain ⟨fine, overStart⟩ := Stmt.over_declare (overInit _ rfl)
    obtain ⟨-, overBound⟩ := forall_mem_append.mp (overCondition _ rfl)
    exact rangeLines_builds fine (overStart _ rfl) overBound builds
  | none =>
    apply Writes.ite
    · intro _
      apply (Writes.lift (.warn _)).bind
      intro _ _
      exact whileLines_builds begins overCondition overUpdate builds
    · intro _
      exact whileLines_builds begins overCondition overUpdate builds

end Loops

section Chains

variable {body : Render (List String)}

/-- Rows that may stand below the open end of a conditional and leave it open. -/
def Continues (level : Nat) (rows : List Row) : Prop :=
  ∀ before, Row.OpenEnded level before → Row.OpenEnded level (before ++ rows)

theorem continues_nil : Continues level [] := by
  intro before opened
  simpa using opened

theorem Continues.cons (isSuite : Row.IsSuite level .elif rows) (continues : Continues level more) :
    Continues level (rows ++ more) := by
  intro before opened
  rw [← List.append_assoc]
  exact continues _ (opened.append_elif isSuite)

theorem labelTest_spells {discriminant : String} {label : Expr}
    (spelled : Spelled diction.admits caps discriminant) (clean : label.Over diction.admits) :
    Spells diction level caps (labelTest discriminant label) := by
  apply (operand_spells clean).bind
  intro text spelledLabel
  exact Spells.pure (.joint (by decide) spelled spelledLabel)

def linkKeyword (isFirst : Bool) : Keyword :=
  if isFirst then .if else .elif

/-- What the links of a chain come to: nothing, or from the first on an open conditional, or more
parts of one. -/
def Chained (isFirst : Bool) (level : Nat) (rows : List Row) : Prop :=
  if isFirst then rows = [] ∨ Row.OpenEnded level rows else Continues level rows

theorem chained_nil {isFirst : Bool} : Chained isFirst level [] := by
  cases isFirst with
  | true => exact .inl rfl
  | false => exact continues_nil

theorem Chained.cons {isFirst : Bool} (isSuite : Row.IsSuite level (linkKeyword isFirst) rows)
    (continues : Chained false level more) : Chained isFirst level (rows ++ more) := by
  cases isFirst with
  | true => exact .inr (continues rows isSuite.openEnded)
  | false => exact Continues.cons isSuite continues

theorem linkLines_builds {discriminant : String} {labels : List Expr}
    (spelled : Spelled diction.admits caps discriminant)
    (clean : ∀ label ∈ labels, label.Over diction.admits) (isFirst : Bool)
    (builds : Nests diction (level + 1) caps body) :
    MayBuild diction level caps (linkLines isFirst discriminant labels body)
      (Row.IsSuite level (linkKeyword isFirst)) := by
  have tests : (labels.mapM (labelTest discriminant)).Says diction.pythonRule level caps
      fun texts =>
        texts.length = labels.length ∧ ∀ text ∈ texts, Spelled diction.admits caps text :=
    Says.mapM fun label member => labelTest_spells spelled (clean label member)
  apply tests.bind
  rintro texts ⟨-, spelled⟩
  have headed : Header diction.admits caps (linkKeyword isFirst)
      ((linkKeyword isFirst).opening ++ join " or " texts ++ ":") := by
    cases texts with
    | nil =>
      have none : (linkKeyword isFirst).opening ++ join " or " [] = (linkKeyword isFirst).opening :=
        String.append_empty
      rw [none]
      exact .bare
    | cons text rest =>
      have tested : linkKeyword isFirst ≠ .else := by cases isFirst <;> decide
      exact .test tested (.join (by decide) spelled)
  cases isFirst with
  | true => exact .lift (suite_builds headed builds)
  | false => exact .lift (suite_builds headed builds)

theorem chainEnd_writes {chain : List Row}
    (inShape : InShape diction.admits (Chained true level) caps chain)
    (builds : Nests diction (level + 1) caps body) :
    Render.Writes diction.pythonRule level caps
      (fun layout => chainEnd (Row.lines chain layout) body)
      (InRows (InShape diction.admits (Row.WellNested level) caps)) := by
  unfold chainEnd
  simp only [Row.isEmpty_lines]
  rcases inShape.shaped with rfl | opened
  · have headed : Header diction.admits caps .if "if True:" :=
      header_test (by decide) (.own (by decide) : Spelled diction.admits caps "True") (by decide)
    apply (suite_builds headed builds).bind
    intro rows isSuite
    exact .rows rows (fun _ => rfl) (isSuite.weaken fun isSuite => isSuite.wellNested rfl)
  · have headed : Header diction.admits caps .else "else:" := .bare
    have notEmpty : ¬chain.isEmpty = true := by
      intro empty
      rw [List.isEmpty_iff.mp empty] at opened
      obtain ⟨_, found, _⟩ := opened.closes
      cases found
    simp only [if_neg notEmpty]
    apply (suite_builds headed builds).bind
    intro rows isSuite
    have whole := inShape.append isSuite fun _ isSuite => opened.append_suite isSuite
    exact .rows _ (fun layout => (Row.lines_append _ _ layout).symm) whole

end Chains

section Statements

theorem InShape.remarks {texts : List String} (unbroken : ∀ text ∈ texts, '\n' ∉ text.toList) :
    InShape admits (Row.WellNested level) caps
      (texts.map fun text => { depth := level, text := Render.commentText "#" text }) := by
  induction texts with
  | nil => exact .nil
  | cons text rest ih =>
    have first : InShape admits (Row.WellNested level) caps
        [{ depth := level, text := Render.commentText "#" text }] :=
      .line (.remark (unbroken text List.mem_cons_self))
    exact first.append (ih fun other member => unbroken other (List.mem_cons_of_mem _ member))
      .append

theorem commentLines_builds (comment : Comment) :
    Nests diction level caps (commentLines comment) := by
  apply Render.Writes.settings.bind
  rintro _ ⟨settings, rfl⟩
  by_cases dropped : (!settings.preserveComments) = true
  · simp only [if_pos dropped]
    exact Render.Writes.rows [] (fun _ => rfl) .nil
  · simp only [if_neg dropped]
    by_cases empty : comment.text.isEmpty = true
    · simp only [if_pos empty]
      have mark : Render.commentText "#" "" = "#" := by decide
      exact Render.Lays.oneLine (.line (mark ▸ .remark (by decide)))
    · simp only [if_neg empty]
      exact Render.Lays.mapLine _ (.remarks fun _ => not_mem_of_mem_lines)

theorem settle_builds {s : Stmt} {source : Option String} (clean : s.Over diction.admits)
    (read : ∀ text ∈ source, diction.admits (.source s.construct text))
    (builds : MayNest diction level caps (stmt s)) :
    Nests diction level caps (Render.settle .python source s (stmt s)) := by
  refine Render.settle_lays builds
    (.of_bare clean read (fun fine => ?_) (.line (.placeholder clean)))
  apply (pythonLine_said fine).mono
  intro line? spelled line found
  exact .line (.spelled (spelled line found))

theorem oneLine_builds (line : Line diction.admits caps text) :
    MayNest diction level caps (liftM (Render.oneLine text)) :=
  Lays.oneLine (.line line)

theorem Builds.andThen {first second : Render (List String)}
    (builds : Nests diction level caps first)
    (buildsToo : Nests diction level caps second) :
    Nests diction level caps (do return (← first) ++ (← second)) :=
  Render.Lays.andThen (fun first second => first.append second .append) builds buildsToo

mutual

theorem stmt_builds : (s : Stmt) → s.Over diction.admits → ∀ level,
    MayNest diction level caps (stmt s)
  | .declare name type init, clean, level => by
    obtain ⟨fine, overInit⟩ := Stmt.over_declare clean
    apply (declareVariable_spells fine type overInit).bind
    intro text spelled
    exact oneLine_builds (.spelled spelled)
  | .declareArray name element dimensions init, clean, level => by
    obtain ⟨fine, overInit⟩ := List.forall_mem_cons.mp clean
    apply (declareArrayOf_spells fine element dimensions overInit).bind
    intro text spelled
    exact oneLine_builds (.spelled spelled)
  | .expr e, clean, level => by
    apply (exprStatement_spells clean).bind
    intro text spelled
    exact oneLine_builds (.spelled spelled)
  | .print p, clean, level => by
    apply (print_said clean).bind
    intro text line
    exact oneLine_builds line
  | .conditional condition body elifs none, clean, level => by
    obtain ⟨overCondition, clean⟩ := forall_mem_append.mp clean
    obtain ⟨overBody, overElifs⟩ := forall_mem_append.mp clean
    apply (expr_spells condition overCondition).bind
    intro test spelled
    have headed : Header diction.admits caps .if ("if " ++ test ++ ":") :=
      .test (by decide) spelled
    apply (Lays.lift (suite_builds headed (stmts_builds body overBody (level + 1)).1)).bind
    intro first inFirst
    apply (branches_build elifs overElifs level).bind
    intro middle inMiddle
    have chain := inFirst.append inMiddle fun isSuite continues =>
      (continues first isSuite.openEnded).toWellNested
    refine .rows _ ?_ chain
    intro layout
    rw [List.append_nil, Row.lines_append]
  | .conditional condition body elifs (some block), clean, level => by
    obtain ⟨overCondition, clean⟩ := forall_mem_append.mp clean
    obtain ⟨overBody, clean⟩ := forall_mem_append.mp clean
    obtain ⟨overElifs, overBlock⟩ := forall_mem_append.mp clean
    apply (expr_spells condition overCondition).bind
    intro test spelled
    have headed : Header diction.admits caps .if ("if " ++ test ++ ":") :=
      .test (by decide) spelled
    apply (Lays.lift (suite_builds headed (stmts_builds body overBody (level + 1)).1)).bind
    intro first inFirst
    apply (branches_build elifs overElifs level).bind
    intro middle inMiddle
    have chain := inFirst.append inMiddle fun isSuite continues =>
      continues first isSuite.openEnded
    have closing : Header diction.admits caps .else "else:" := .bare
    apply (Lays.lift (suite_builds closing (stmts_builds block overBlock (level + 1)).1)).bind
    intro rest inRest
    have whole := chain.append inRest fun opened isSuite => opened.append_suite isSuite
    refine .rows _ ?_ whole
    intro layout
    rw [Row.lines_append, Row.lines_append]
  | .switch discriminant cases, clean, level => by
    obtain ⟨overDiscriminant, overCases⟩ := forall_mem_append.mp clean
    apply (Writes.lift (.warnFallthrough cases)).bind
    intro _ _
    apply (operand_spells overDiscriminant).bind
    intro text spelled
    apply (links_build true cases overCases spelled).bind
    intro chain inChain
    apply Writes.lift
    exact chainEnd_writes inChain (defaultBody_builds cases overCases (level + 1))
  | .forLoop none condition update body, clean, level => by
    obtain ⟨-, overCondition, overUpdate, overBody⟩ := Stmt.over_forLoop clean
    apply forLines_builds body _ (by simp) overCondition overUpdate
      (stmts_builds body overBody (level + 1)).1
    exact .rows [] (fun _ => rfl) .nil
  | .forLoop (some s) condition update body, clean, level => by
    obtain ⟨overInit, overCondition, overUpdate, overBody⟩ := Stmt.over_forLoop clean
    apply forLines_builds body _ overInit overCondition overUpdate
      (stmts_builds body overBody (level + 1)).1
    exact settle_builds (overInit s rfl) (fun _ found => by cases found)
      (stmt_builds s (overInit s rfl) level)
  | .whileLoop condition body, clean, level => by
    obtain ⟨overCondition, overBody⟩ := forall_mem_append.mp clean
    apply (expr_spells condition overCondition).bind
    intro test spelled
    have headed : Header diction.admits caps .while ("while " ++ test ++ ":") :=
      .test (by decide) spelled
    exact loop_builds headed rfl (stmts_builds body overBody (level + 1)).1
  | .doWhile condition body, clean, level => by
    obtain ⟨overCondition, overBody⟩ := forall_mem_append.mp clean
    exact doWhileLines_builds overCondition _ (stmts_builds body overBody (level + 1)).1
  | .forEach type name iterable body, clean, level => by
    obtain ⟨fine, clean⟩ := List.forall_mem_cons.mp clean
    obtain ⟨overIterable, overBody⟩ := forall_mem_append.mp clean
    exact forEachLines_builds type fine overIterable (stmts_builds body overBody (level + 1)).1
  | .breakStmt, _, _ | .continueStmt, _, _ | .returnStmt none, _, _ =>
    oneLine_builds (.spelled (.own (by decide)))
  | .returnStmt (some value), clean, level => by
    apply (Writes.lift (.warn _)).bind
    intro _ _
    exact oneLine_builds (.spelled (.own (by decide)))
  | .comment comment, clean, level => .lift (commentLines_builds comment)
  | .block body, clean, level =>
    .lift (.inScope (stmts_builds body clean level).1)
  | .sequence parts, clean, level => .lift (stmts_builds parts clean level).1
  | .unsupported kind text, clean, level => .refuse _

theorem stmts_builds : (block : List Stmt) →
    (∀ leaf ∈ Stmt.leavesOf block, diction.admits leaf) → ∀ level,
      Nests diction level caps (stmts block) ∧ Nests diction level caps (stmtsOfCase block)
  | [], _, level => by
    have none : Nests diction level caps (return []) := Render.Writes.rows [] (fun _ => rfl) .nil
    exact ⟨none, none⟩
  | s :: rest, clean, level => by
    obtain ⟨overFirst, overRest⟩ := forall_mem_append.mp clean
    have first : Nests diction level caps (Render.settle .python none s (stmt s)) :=
      settle_builds overFirst (fun _ found => by cases found)
        (stmt_builds s overFirst level)
    obtain ⟨whole, ofCase⟩ := stmts_builds rest overRest level
    refine ⟨first.andThen whole, ?_⟩
    unfold stmtsOfCase
    split
    · exact .rows [] (fun _ => rfl) .nil
    · exact first.andThen ofCase

theorem branches_build : (elifs : List Branch) →
    (∀ leaf ∈ Stmt.leavesOfBranches elifs, diction.admits leaf) → ∀ level,
      MayBuild diction level caps (branches elifs) (Continues level)
  | [], _, level => Writes.rows [] (fun _ => rfl) ⟨continues_nil, by simp⟩
  | .mk condition body :: rest, clean, level => by
    obtain ⟨overCondition, clean⟩ := forall_mem_append.mp clean
    obtain ⟨overBody, overRest⟩ := forall_mem_append.mp clean
    apply (expr_spells condition overCondition).bind
    intro test spelled
    have headed : Header diction.admits caps .elif ("elif " ++ test ++ ":") :=
      .test (by decide) spelled
    apply (Lays.lift (suite_builds headed (stmts_builds body overBody (level + 1)).1)).bind
    intro first inFirst
    apply (branches_build rest overRest level).bind
    intro others inOthers
    have whole := inFirst.append inOthers Continues.cons
    exact Writes.rows _ (fun layout => (Row.lines_append _ _ layout).symm) whole

theorem links_build (isFirst : Bool) : (cases : List Case) →
    (∀ leaf ∈ Stmt.leavesOfCases cases, diction.admits leaf) →
      ∀ {discriminant : String} {level : Nat},
        Spelled diction.admits caps discriminant →
          MayBuild diction level caps (links isFirst discriminant cases) (Chained isFirst level)
  | [], _, _, level, _ => Writes.rows [] (fun _ => rfl) ⟨chained_nil, by simp⟩
  | .mk labels body :: rest, clean, discriminant, level, spelled => by
    obtain ⟨overLabels, clean⟩ := forall_mem_append.mp clean
    obtain ⟨overBody, overRest⟩ := forall_mem_append.mp clean
    unfold links
    split
    · exact links_build isFirst rest overRest spelled
    · apply (linkLines_builds spelled (SwitchLabel.over_exprs overLabels) isFirst
        (stmts_builds body overBody (level + 1)).2).bind
      intro first inFirst
      apply (links_build false rest overRest spelled).bind
      intro others inOthers
      have whole := inFirst.append inOthers Chained.cons
      exact Writes.rows _ (fun layout => (Row.lines_append _ _ layout).symm) whole

theorem defaultBody_builds : (cases : List Case) →
    (∀ leaf ∈ Stmt.leavesOfCases cases, diction.admits leaf) → ∀ level,
      Nests diction level caps ((defaultBody cases).getD (return []))
  | [], _, level => by
    rw [defaultBody]
    exact .rows [] (fun _ => rfl) .nil
  | .mk labels block :: rest, clean, level => by
    obtain ⟨-, clean⟩ := forall_mem_append.mp clean
    obtain ⟨overBlock, overRest⟩ := forall_mem_append.mp clean
    have later := defaultBody_builds rest overRest level
    rw [defaultBody]
    split
    next found =>
      rw [found] at later
      exact later
    next =>
      split
      · exact (stmts_builds block overBlock level).2
      · exact .rows [] (fun _ => rfl) .nil

end

end Statements

end Python

end Retarget
