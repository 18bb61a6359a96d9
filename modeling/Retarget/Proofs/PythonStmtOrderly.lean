import Retarget.Proofs.PythonExprOrderly
import Retarget.Render.PythonStmt

/-!
# Python statements are orderly

A declaration in Python is an assignment, and its value is rendered before its name is declared, so
it is atomic. A statement whose literals stay in range is rendered without a fault wherever there is
room for its levels of indentation.
-/

namespace Retarget

open Attempt.Consulting (mapM ofExcept symbols)
open Attempt.Steady (lift line oneLine symbols warn)

def ArrayInit.exprs : ArrayInit → List Expr
  | .absent => []
  | .literal items => items
  | .clone source | .alias source => [source]
  | .allocate extents => extents

/-- The labels of a case, as far as they are expressions, have literals that can be negated. -/
def TameLabels (labels : List SwitchLabel) : Prop :=
  ∀ e ∈ labels.filterMap SwitchLabel.expr?, e.Tame

mutual

/-- A statement that `room` levels of indentation suffice for, and whose literals stay in range. -/
def Stmt.Sound (room : Nat) : Stmt → Prop
  | .declare _ _ init => ∀ e, init = some e → e.Tame
  | .declareArray _ _ _ init => ∀ e ∈ init.exprs, e.Tame
  | .expr e => e.Tame
  | .print p => ∀ e ∈ p.args, e.Tame
  | .conditional condition body elifs otherwise =>
    condition.Tame ∧ 1 ≤ room ∧ AllSound (room - 1) body ∧ SoundBranches (room - 1) elifs ∧
      match otherwise with
      | none => True
      | some block => AllSound (room - 1) block
  | .switch discriminant cases => discriminant.Tame ∧ 1 ≤ room ∧ SoundCases (room - 1) cases
  | .forLoop init condition update body =>
    (match init with
      | none => True
      | some stmt => stmt.Sound room) ∧
      (∀ e, condition = some e → e.Bounding) ∧ (∀ e ∈ update, e.Tame) ∧ 1 ≤ room ∧
      AllSound (room - 1) body
  | .whileLoop condition body => condition.Tame ∧ 1 ≤ room ∧ AllSound (room - 1) body
  | .doWhile condition body => condition.Tame ∧ 2 ≤ room ∧ AllSound (room - 1) body
  | .forEach _ _ iterable body => iterable.Tame ∧ 1 ≤ room ∧ AllSound (room - 1) body
  | .block body => AllSound room body
  | .sequence parts => AllSound room parts
  | .breakStmt | .continueStmt | .returnStmt _ | .comment _ | .unsupported .. => True

def AllSound (room : Nat) : List Stmt → Prop
  | [] => True
  | stmt :: rest => stmt.Sound room ∧ AllSound room rest

def SoundBranches (room : Nat) : List Branch → Prop
  | [] => True
  | .mk condition body :: rest => condition.Tame ∧ AllSound room body ∧ SoundBranches room rest

def SoundCases (room : Nat) : List Case → Prop
  | [] => True
  | .mk labels body :: rest =>
    TameLabels labels ∧ AllSound room body ∧ SoundCases room rest

end

theorem allSound_iff {room : Nat} {stmts : List Stmt} :
    AllSound room stmts ↔ ∀ stmt ∈ stmts, stmt.Sound room := by
  induction stmts with
  | nil => simp [AllSound]
  | cons stmt rest ih => simp [AllSound, ih]

namespace Python

variable {may : Prop} {body : Render (List String)} {target : Target} {room : Nat} {extent : Extent}
  {update : List Expr} {condition : Option Expr}

theorem converted_consulting (type : ValueType) {value : Expr} (tame : may ∨ value.Tame) :
    (converted type value).Consulting may := by
  have wrapped (function : String) :
      (expr value >>= fun text => pure (applied function text)).Consulting may :=
    (expr_consulting value tame).bind fun _ => .pure _
  refine symbols.bind fun table => ?_
  dsimp only
  split
  · split
    · exact .pure _
    · exact wrapped "float"
  · split
    · exact wrapped "chr"
    · split
      · exact wrapped "ord"
      · exact expr_consulting value tame

theorem declareVariable_declares (holds : Symbol → Prop) {name : String} {type : ValueType}
    (fits : holds (.scalar name type)) (init : Option Expr) :
    (declareVariable name type init).Declares .python holds := by
  have assigned (value : String) :
      (liftM (declareScalar name type) >>= fun declared => pure (declared ++ " = " ++ value) :
        Attempt String).Declares .python holds :=
    .andThen (.declareFor fits) fun _ => .pure _
  cases init with
  | some value => exact .after (converted_consulting type (.inl trivial)).orderly assigned
  | none => exact .after (.pure _) assigned

theorem declareVariable_steady (name : String) (type : ValueType) {init : Option Expr}
    (tame : may ∨ ∀ e, init = some e → e.Tame) :
    (declareVariable name type init).Steady may .python room .declaring := by
  have assigned (value : String) :
      (liftM (declareScalar name type) >>= fun declared => pure (declared ++ " = " ++ value) :
        Attempt String).Steady may .python room .declaring :=
    (lift (.declareFor _)).bind fun _ => .pure _
  cases init with
  | some value =>
    have made := converted_consulting type (tame.imp_right (· value rfl))
    exact (made.steady id).bind assigned
  | none => exact assigned _

section Arrays

variable {extents : List Expr}

theorem comprehension_consulting (value : String) (tame : may ∨ ∀ e ∈ extents, e.Tame) :
    (comprehension value extents).Consulting may := by
  induction extents generalizing value with
  | nil => exact .pure _
  | cons outer rest ih =>
    refine (expr_consulting outer (tame.imp_right (· outer List.mem_cons_self))).bind fun _ => ?_
    exact ih _ (tame.imp_right fun all e member => all e (List.mem_cons_of_mem outer member))

theorem allocation_consulting (fill : String) (tame : may ∨ ∀ e ∈ extents, e.Tame) :
    (allocation fill extents).Consulting may := by
  unfold allocation
  split
  · exact .refuse _
  next last outer reversed =>
    have listed : may ∨ ∀ e ∈ last :: outer, e.Tame :=
      tame.imp_right fun all e member => all e (List.mem_reverse.mp (reversed ▸ member))
    refine (operand_consulting (listed.imp_right (· last List.mem_cons_self))).bind fun _ => ?_
    exact comprehension_consulting _ (listed.imp_right fun all e member =>
      all e (List.mem_cons_of_mem last member))

theorem outerExtent_eq_ok (tame : ∀ e ∈ extents, e.Tame) :
    ∃ size, outerExtent extents = .ok size := by
  cases extents with
  | nil => exact ⟨none, rfl⟩
  | cons extent rest =>
    obtain ⟨value, found⟩ := Expr.Tame.literalInteger (tame extent List.mem_cons_self)
    exact ⟨_, by rw [outerExtent, found]; rfl⟩

theorem arrayValue_consulting (element : ValueType) (dimensions : Nat) {init : ArrayInit}
    (tame : may ∨ ∀ e ∈ init.exprs, e.Tame) :
    (arrayValue element dimensions init).Consulting may := by
  match init with
  | .literal items =>
    exact (exprs_consulting items (tame.imp_right Expr.allWithin_iff.mpr)).bind fun _ => .pure _
  | .clone source =>
    exact symbols.bind fun _ =>
      (operand_consulting (tame.imp_right (· source List.mem_cons_self))).bind fun _ => .pure _
  | .allocate extents =>
    refine (ofExcept (tame.imp_right outerExtent_eq_ok)).bind fun _ => ?_
    exact (allocation_consulting _ tame).bind fun _ => .pure _
  | .alias source =>
    exact symbols.bind fun _ =>
      (expr_consulting source (tame.imp_right (· source List.mem_cons_self))).bind fun _ => .pure _
  | .absent => exact .pure _

end Arrays

theorem declareArrayOf_declares (holds : Symbol → Prop) {name : String} {element : ValueType}
    {dimensions : Nat} (fits : ∀ size, holds (.array name element dimensions size))
    (init : ArrayInit) : (declareArrayOf name element dimensions init).Declares .python holds := by
  refine .after (arrayValue_consulting element dimensions (.inl trivial)).orderly fun value => ?_
  exact .andThen (.declareFor (fits _)) fun _ => .pure _

theorem declareArrayOf_steady (name : String) (element : ValueType) (dimensions : Nat)
    {init : ArrayInit} (tame : may ∨ ∀ e ∈ init.exprs, e.Tame) :
    (declareArrayOf name element dimensions init).Steady may .python room .declaring := by
  refine ((arrayValue_consulting element dimensions tame).steady id).bind fun value => ?_
  exact (lift (.declareFor _)).bind fun _ => .pure _

theorem commentLines_steady (comment : Comment) :
    (commentLines comment).Steady may target room extent := by
  refine Render.Steady.settings.bind fun settings => ?_
  split
  · exact .done _
  · split
    · exact .oneLine _
    · exact .commentLines _ _

theorem updateLines_steady (tame : may ∨ ∀ e ∈ update, e.Tame) :
    (updateLines update).Steady may target room extent := by
  induction update with
  | nil => exact .pure _
  | cons e rest ih =>
    have first := exprStatement_consulting (tame.imp_right (· e List.mem_cons_self))
    have later := tame.imp_right fun all e' member => all e' (List.mem_cons_of_mem e member)
    exact (first.steady id).bind fun _ => (line _).bind fun _ =>
      (ih later).bind fun _ => .pure _

theorem loopTest_consulting {condition : Option Expr}
    (tame : may ∨ ∀ e, condition = some e → e.Tame) : (loopTest condition).Consulting may := by
  cases condition with
  | some e => exact expr_consulting e (tame.imp_right (· e rfl))
  | none => exact .pure _

theorem stepOf_eq_ok (name : String) {change : Expr} (tame : change.Tame) :
    ∃ step, stepOf name change = .ok step ∧ ∀ k, step = some k → Text.isInteger k = true := by
  unfold stepOf
  split
  · split
    · split
      · exact ⟨_, rfl, fun _ same => by cases same; rfl⟩
      · exact ⟨_, rfl, fun _ same => by cases same; rfl⟩
    · exact ⟨_, rfl, fun _ none => by cases none⟩
  next op target value =>
    split
    · obtain ⟨number, found, bounds⟩ := literalInteger_of_within (Int.le_refl _) tame.2
      have inRange (k : Int) (positive : number.filter (0 < ·) = some k) :
          Text.isInteger k = true ∧ Text.isInteger (-k) = true := by
        have fits := bounds k (Option.filter_eq_some_iff.mp positive).1
        simp only [Text.isInteger_iff, Text.minInteger, Text.maxInteger] at fits ⊢
        omega
      rw [found]
      dsimp only [bind, Except.bind]
      split
      next k positive => exact ⟨_, rfl, fun _ same => by cases same; exact (inRange k positive).1⟩
      next k positive => exact ⟨_, rfl, fun _ same => by cases same; exact (inRange k positive).2⟩
      next => exact ⟨_, rfl, fun _ none => by cases none⟩
    · exact ⟨_, rfl, fun _ none => by cases none⟩
  · exact ⟨_, rfl, fun _ none => by cases none⟩

theorem counting?_eq_ok {init : Option Stmt} (block : List Stmt)
    (initSound : ∀ s, init = some s → s.Sound room)
    (bounding : ∀ e, condition = some e → e.Bounding) (tame : ∀ e ∈ update, e.Tame) :
    ∃ found, counting? init condition update block = .ok found ∧
      ∀ loop, found = some loop → loop.Sound := by
  unfold counting?
  split
  next name type start op left bound change =>
    split
    · obtain ⟨step, stepped, -⟩ := stepOf_eq_ok name (tame change List.mem_cons_self)
      rw [stepped]
      cases step with
      | none => exact ⟨none, rfl, nofun⟩
      | some step =>
        dsimp only [bind, Except.bind]
        split
        · refine ⟨_, rfl, ?_⟩
          rintro _ ⟨⟩
          have parts := bounding _ rfl
          exact ⟨initSound _ rfl start rfl, parts.1.2, parts.2.2⟩
        · exact ⟨none, rfl, nofun⟩
    · exact ⟨none, rfl, nofun⟩
  · exact ⟨none, rfl, nofun⟩

section Loops

variable (fits : may ∨ 1 ≤ room)

include fits

theorem withPass_steady (lines : List String) : (withPass lines).Steady may target room extent := by
  unfold withPass
  split
  · exact Render.Steady.bind (.indented fits (Render.Steady.oneLine _)) fun _ => .done _
  · exact .done _

theorem bodyWithUpdates_steady (inside : List String) (tame : may ∨ ∀ e ∈ update, e.Tame) :
    (bodyWithUpdates inside update).Steady may target room extent := by
  refine .indented fits ((updateLines_steady tame).bind fun updates => ?_)
  dsimp only
  split
  · exact (oneLine _).bind fun _ => .pure _
  · exact .pure _

variable (steady : body.Steady may target (room - 1) .declaring)

include steady

theorem suite_steady (header : String) : (suite header body).Steady may target room extent := by
  refine (Render.Steady.line _).bind fun first => ?_
  refine (Render.Steady.nested fits steady).bind fun inside => ?_
  exact (withPass_steady fits inside).bind fun _ => .done _

theorem whileLines_steady {init : Render (List String)}
    (initSteady : init.Steady may target room .declaring)
    (conditionTame : may ∨ ∀ e, condition = some e → e.Tame)
    (updateTame : may ∨ ∀ e ∈ update, e.Tame) :
    (whileLines init condition update body).Steady may target room extent := by
  refine .inScope ((lift initSteady).bind fun first => ?_)
  refine ((loopTest_consulting conditionTame).steady id).bind fun test => ?_
  refine (line _).bind fun header => ?_
  refine (lift (.nested fits steady)).bind fun inside => ?_
  exact (bodyWithUpdates_steady fits inside updateTame).bind fun _ => .pure _

/-- The test at the end of a `do` loop takes a level of its own inside the body. -/
theorem doWhileLines_steady {condition : Expr} (hasContinue : Bool) (deeper : may ∨ 1 ≤ room - 1)
    (tame : may ∨ condition.Tame) :
    (doWhileLines condition hasContinue body).Steady may target room extent := by
  have looped : (do
      let test ← exitTest condition
      let header ← Render.line "while True:"
      let inside ← Render.nested body
      let tail ← Attempt.indented do
        let exit ← Render.line ("if " ++ test ++ ":")
        let leave ← Attempt.indented (Render.line "break")
        return [exit, leave]
      return header :: inside ++ tail : Attempt (List String)).Steady may target room extent := by
    refine ((exitTest_consulting tame).steady id).bind fun test => ?_
    refine (line _).bind fun header => ?_
    refine (lift (.nested fits steady)).bind fun inside => ?_
    refine .bind (.indented fits ?_) fun tail => .pure _
    refine (line _).bind fun exit => ?_
    exact .bind (.indented deeper (line _)) fun leave => .pure _
  unfold doWhileLines
  split
  · exact (warn _).bind fun _ => looped
  · exact looped

theorem linkLines_steady (isFirst : Bool) (discriminant : String) {labels : List Expr}
    (tame : may ∨ ∀ e ∈ labels, e.Tame) :
    (linkLines isFirst discriminant labels body).Steady may target room extent := by
  have tested (label : Expr) (member : label ∈ labels) :
      (labelTest discriminant label).Consulting may :=
    (operand_consulting (tame.imp_right (· label member))).bind fun _ => .pure _
  refine ((mapM tested).steady id).bind fun tests => ?_
  exact .lift (suite_steady fits steady _)

theorem chainEnd_steady (chain : List String) :
    (chainEnd chain body).Steady may target room extent :=
  (suite_steady fits steady _).bind fun _ => .done _

end Loops

section PythonLoops

variable (fits : may ∨ 1 ≤ room) (steady : body.Steady may .python (room - 1) .declaring)

include fits steady

theorem rangeLines_steady {loop : Counting} (sound : may ∨ loop.Sound) :
    (rangeLines loop body).Steady may .python room extent := by
  refine ((rangeArgs_consulting sound).steady id).bind fun args => .inScope ?_
  refine (lift (.declareFor _)).bind fun name => ?_
  exact .lift (suite_steady fits steady _)

theorem forLines_steady {init : Option Stmt} (block : List Stmt) {first : Render (List String)}
    (initSteady : first.Steady may .python room .declaring)
    (sound : may ∨ (∀ s, init = some s → s.Sound room) ∧
      (∀ e, condition = some e → e.Bounding) ∧ ∀ e ∈ update, e.Tame) :
    (forLines init condition update block first body).Steady may .python room extent := by
  have counted := sound.imp_right fun ⟨initSound, bounding, tame⟩ =>
    counting?_eq_ok block initSound bounding tame
  refine .afterExcept (counted.imp_right fun ⟨found, same, _⟩ => ⟨found, same⟩)
    fun counting found => ?_
  cases counting with
  | some loop =>
    refine rangeLines_steady fits steady (counted.imp_right fun ⟨_, same, sound⟩ => ?_)
    exact sound loop (Except.ok.inj (same.symm.trans found))
  | none =>
    have looped : (whileLines first condition update body).Steady may .python room extent :=
      whileLines_steady fits steady initSteady
        (sound.imp_right fun parts e same => (parts.2.1 e same).1) (sound.imp_right (·.2.2))
    dsimp only
    split
    · exact (warn _).bind fun _ => looped
    · exact looped

theorem forEachLines_steady (type : ValueType) (name : String) {iterable : Expr}
    (tame : may ∨ iterable.Tame) :
    (forEachLines type name iterable body).Steady may .python room extent := by
  refine symbols.bind fun table => ?_
  refine ((expr_consulting iterable tame).steady id).bind fun text => .inScope ?_
  split
  all_goals
    exact (lift (.declareFor _)).bind fun declared =>
      .lift (suite_steady fits steady _)

end PythonLoops

-- Each case follows an equation of the renderer, which holds by definition.
mutual

/-- The Python lines of a sound statement are made without a fault. -/
theorem stmt_steady {room : Nat} : (s : Stmt) → may ∨ s.Sound room →
    (stmt s).Steady may .python room s.extent
  | .declare name type init, sound =>
    (declareVariable_steady name type sound).bind fun _ => .oneLine _
  | .declareArray name element dimensions init, sound =>
    (declareArrayOf_steady name element dimensions sound).bind fun _ => .oneLine _
  | .expr e, sound =>
    ((exprStatement_consulting sound).steady id).bind fun _ => .oneLine _
  | .print p, sound => ((print_consulting sound).steady id).bind fun _ => .oneLine _
  | .conditional condition body elifs none, sound => by
    have fits := sound.imp_right (·.2.1)
    have inside := stmts_steady body (sound.imp_right (·.2.2.1))
    refine ((expr_consulting condition (sound.imp_right (·.1))).steady id).bind fun test => ?_
    refine (lift (suite_steady fits inside _)).bind fun first => ?_
    refine (branches_steady fits elifs (sound.imp_right (·.2.2.2.1))).bind fun middle => ?_
    exact (Attempt.Steady.pure _).bind fun rest => .pure _
  | .conditional condition body elifs (some block), sound => by
    have fits := sound.imp_right (·.2.1)
    have inside := stmts_steady body (sound.imp_right (·.2.2.1))
    have otherwise := stmts_steady block (sound.imp_right (·.2.2.2.2))
    refine ((expr_consulting condition (sound.imp_right (·.1))).steady id).bind fun test => ?_
    refine (lift (suite_steady fits inside _)).bind fun first => ?_
    refine (branches_steady fits elifs (sound.imp_right (·.2.2.2.1))).bind fun middle => ?_
    refine (lift (suite_steady fits otherwise _)).bind fun rest => ?_
    exact .pure _
  | .switch discriminant cases, sound => by
    have fits := sound.imp_right (·.2.1)
    have casesSound := sound.imp_right (·.2.2)
    refine (lift (.warnFallthrough cases)).bind fun _ => ?_
    refine ((operand_consulting (sound.imp_right (·.1))).steady id).bind fun text => ?_
    refine (links_steady fits true text cases casesSound).bind fun chain => ?_
    exact .lift (chainEnd_steady fits (defaultBody_steady cases casesSound) chain)
  | .forLoop none condition update body, sound => by
    have inside := stmts_steady body (sound.imp_right (·.2.2.2.2))
    exact forLines_steady (sound.imp_right (·.2.2.2.1)) inside body (.done _)
      (sound.imp_right fun ⟨_, bounding, tame, _⟩ => ⟨nofun, bounding, tame⟩)
  | .forLoop (some s) condition update body, sound => by
    have inside := stmts_steady body (sound.imp_right (·.2.2.2.2))
    have first := Render.settle_steady none s (stmt_steady s (sound.imp_right (·.1)))
    refine forLines_steady (sound.imp_right (·.2.2.2.1)) inside body first (sound.imp_right ?_)
    rintro ⟨initSound, bounding, tame, -⟩
    exact ⟨fun _ same => Option.some.inj same ▸ initSound, bounding, tame⟩
  | .whileLoop condition body, sound => by
    have inside := stmts_steady body (sound.imp_right (·.2.2))
    refine ((expr_consulting condition (sound.imp_right (·.1))).steady id).bind fun test => ?_
    exact .lift (suite_steady (sound.imp_right (·.2.1)) inside _)
  | .doWhile condition body, sound => by
    have inside := stmts_steady body (sound.imp_right (·.2.2))
    have deep : may ∨ 2 ≤ room := sound.imp_right (·.2.1)
    exact doWhileLines_steady (deep.imp_right Nat.le_of_succ_le) inside _
      (deep.imp_right Nat.le_pred_of_lt) (sound.imp_right (·.1))
  | .forEach type name iterable body, sound => by
    have inside := stmts_steady body (sound.imp_right (·.2.2))
    exact forEachLines_steady (sound.imp_right (·.2.1)) inside type name (sound.imp_right (·.1))
  | .breakStmt, _ | .continueStmt, _ | .returnStmt none, _ => .oneLine _
  | .returnStmt (some value), _ => (warn _).bind fun _ => .oneLine _
  | .comment comment, _ => .lift (commentLines_steady comment)
  | .block body, sound => .lift (.inScope (stmts_steady body sound))
  | .sequence parts, sound => .lift (stmts_steady parts sound)
  | .unsupported kind text, _ => .refuse _

theorem stmts_steady {room : Nat} : (block : List Stmt) → may ∨ AllSound room block →
    (stmts block).Steady may .python room .declaring
  | [], _ => .done _
  | s :: rest, sound =>
    (Render.settle_steady none s (stmt_steady s (sound.imp_right (·.1)))).bind fun _ =>
      (stmts_steady rest (sound.imp_right (·.2))).bind fun _ => .done _

theorem stmtsOfCase_steady {room : Nat} : (block : List Stmt) → may ∨ AllSound room block →
    (stmtsOfCase block).Steady may .python room .declaring
  | [], _ => .done _
  | s :: rest, sound => by
    unfold stmtsOfCase
    split
    · exact .done _
    · exact (Render.settle_steady none s (stmt_steady s (sound.imp_right (·.1)))).bind fun _ =>
        (stmtsOfCase_steady rest (sound.imp_right (·.2))).bind fun _ => .done _

theorem branches_steady {room : Nat} (fits : may ∨ 1 ≤ room) :
    (elifs : List Branch) → may ∨ SoundBranches (room - 1) elifs →
    (branches elifs).Steady may .python room .contained
  | [], _ => .pure _
  | .mk condition body :: rest, sound => by
    have inside := stmts_steady body (sound.imp_right (·.2.1))
    refine ((expr_consulting condition (sound.imp_right (·.1))).steady id).bind fun test => ?_
    refine (lift (suite_steady fits inside _)).bind fun first => ?_
    exact (branches_steady fits rest (sound.imp_right (·.2.2))).bind fun others => .pure _

theorem links_steady {room : Nat} (fits : may ∨ 1 ≤ room) (isFirst : Bool)
    (discriminant : String) : (cases : List Case) → may ∨ SoundCases (room - 1) cases →
    (links isFirst discriminant cases).Steady may .python room .contained
  | [], _ => .pure _
  | .mk labels body :: rest, sound => by
    unfold links
    split
    · exact links_steady fits isFirst discriminant rest (sound.imp_right (·.2.2))
    · have inside := stmtsOfCase_steady body (sound.imp_right (·.2.1))
      refine (linkLines_steady fits inside isFirst discriminant (sound.imp_right (·.1))).bind
        fun _ => ?_
      exact (links_steady fits false discriminant rest (sound.imp_right (·.2.2))).bind
        fun _ => .pure _

theorem defaultBody_steady {room : Nat} : (cases : List Case) → may ∨ SoundCases room cases →
    ((defaultBody cases).getD (return [])).Steady may .python room .declaring
  | [], _ => .done _
  | .mk labels block :: rest, sound => by
    have later := defaultBody_steady rest (sound.imp_right (·.2.2))
    rw [defaultBody]
    split
    next found =>
      rw [found] at later
      exact later
    next =>
      split
      · exact stmtsOfCase_steady block (sound.imp_right (·.2.1))
      · exact .done _

end

theorem stmt_orderly (s : Stmt) : (stmt s).Orderly .python s.extent :=
  stmt_steady s (.inl trivial)

theorem stmts_orderly (block : List Stmt) : (stmts block).Orderly .python .declaring :=
  stmts_steady block (.inl trivial)

theorem stmt_atomic (s : Stmt) : (stmt s).Atomic .python := by
  have ofContained (s : Stmt) (contained : s.extent = .contained) : (stmt s).Atomic .python :=
    .ofContained (contained ▸ stmt_orderly s)
  cases s with
  | declare name type init =>
    exact ((declareVariable_declares (fun _ => True) trivial init).andThen fun _ =>
      .oneLine _).toAtomic
  | declareArray name element dimensions init =>
    exact ((declareArrayOf_declares (fun _ => True) (fun _ => trivial) init).andThen
      fun _ => .oneLine _).toAtomic
  | sequence parts =>
    -- Its parts may declare, but each is settled on its own, so the sequence is never refused.
    exact (Attempt.Certain.lift (stmts_orderly parts)).atomic
  | _ => exact ofContained _ rfl

end Python

end Retarget
