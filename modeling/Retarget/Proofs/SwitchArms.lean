import Retarget.Proofs.CStmtOrderly
import Retarget.Proofs.PythonStmtOrderly

/-!
# Switches as chains of conditionals

A switch that becomes a chain of conditionals has an arm for each case without a default label, in
the order of the cases, and the last case with one as its fallback.
-/

namespace Retarget

variable {discriminant : Expr}

/-- An arm of a chain of conditionals: what is compared with the value of the switch, and what is
run if one of the comparisons holds. -/
structure Arm where
  tests : List Expr
  body : List Stmt

def Case.arm (case : Case) : Arm :=
  ⟨case.values, withoutFinalBreak case.body⟩

def armsOf (cases : List Case) : List Arm :=
  (cases.filter fun case => !case.isDefault).map Case.arm

/-- What is run if no comparison holds: the last case with a default label. -/
def fallbackOf (cases : List Case) : Option (List Stmt) :=
  (cases.filter Case.isDefault).getLast?.map fun case => case.arm.body

def chainLines (link : Bool → Arm → Attempt (List String)) (isFirst : Bool) :
    List Arm → Attempt (List String)
  | [] => return []
  | arm :: rest => do
    let first ← link isFirst arm
    let others ← chainLines link false rest
    return first ++ others

/-- A switch as a chain of its arms, which is finished with the fallback. -/
def chainSwitch (value : Attempt String) (link : String → Bool → Arm → Attempt (List String))
    (finish : List String → Option (List Stmt) → Render (List String)) (cases : List Case) :
    Attempt (List String) := do
  Render.warnFallthrough cases
  let text ← value
  let chain ← chainLines (link text) true (armsOf cases)
  finish chain (fallbackOf cases)

section Cases

variable {s : Stmt} {rest : List Stmt} {case : Case} {cases : List Case}

theorem withoutFinalBreak_singleton (s : Stmt) :
    withoutFinalBreak [s] = if s.isBreak then [] else [s] := rfl

theorem withoutFinalBreak_cons (later : rest ≠ []) :
    withoutFinalBreak (s :: rest) = s :: withoutFinalBreak rest := by
  cases rest with
  | nil => exact absurd rfl later
  | cons next rest =>
    unfold withoutFinalBreak
    rw [List.getLast?_cons_cons, List.dropLast_cons_cons]
    split <;> rfl

theorem armsOf_cons_default (isDefault : case.isDefault = true) :
    armsOf (case :: cases) = armsOf cases := by simp [armsOf, isDefault]

theorem armsOf_cons (plain : case.isDefault = false) :
    armsOf (case :: cases) = case.arm :: armsOf cases := by simp [armsOf, plain]

theorem armsOf_append (first second : List Case) :
    armsOf (first ++ second) = armsOf first ++ armsOf second := by simp [armsOf]

theorem fallbackOf_cons (case : Case) (cases : List Case) : fallbackOf (case :: cases) =
      (fallbackOf cases).or (if case.isDefault then some case.arm.body else none) := by
  unfold fallbackOf
  cases isDefault : case.isDefault with
  | false => simp [isDefault]
  | true =>
    rw [List.filter_cons_of_pos isDefault]
    cases cases.filter Case.isDefault with
    | nil => rfl
    | cons other rest =>
      obtain ⟨last, found⟩ : ∃ last, (other :: rest).getLast? = some last :=
        Option.isSome_iff_exists.mp (by simp)
      rw [List.getLast?_cons_cons, found]
      rfl

end Cases

/-- A context in which names and lines come out as in another one. -/
structure Context.Alike (cx start : Context) : Prop where
  symbols : start.symbols = cx.symbols
  settings : start.settings = cx.settings
  indent : start.indent = cx.indent

namespace Context.Alike

variable {α : Type} {cx between after : Context} {target : Target}

theorem trans (first : cx.Alike between) (second : between.Alike after) : cx.Alike after :=
  ⟨second.symbols.trans first.symbols, second.settings.trans first.settings,
    second.indent.trans first.indent⟩

theorem of_run {room : Nat} {excused : α → Prop} {rendering : Render α} {value : α}
    (steps : rendering.Steps True target room .contained excused)
    (ends : rendering.run cx = .ok (value, after)) : cx.Alike after :=
  ⟨steps.symbols_eq ends, (steps.frame ends).settings, (steps.frame ends).indent⟩

end Context.Alike

/-- The blocks of lines that the arms of a chain are written as, each from a context like `cx`. -/
inductive Chained (cx : Context) (link : Bool → Arm → Attempt (List String)) :
    Bool → List Arm → List (List String) → Prop where
  | nil {isFirst : Bool} : Chained cx link isFirst [] []
  | cons {isFirst : Bool} {arm : Arm} {rest : List Arm} {block : List String}
      {blocks : List (List String)} {start after : Context} (alike : cx.Alike start)
      (rendered : (link isFirst arm).run.run start = .ok (.ok block, after))
      (others : Chained cx link false rest blocks) :
      Chained cx link isFirst (arm :: rest) (block :: blocks)

section Chains

variable {link : Bool → Arm → Attempt (List String)} {isFirst : Bool} {arms : List Arm}
  {cx start after : Context} {lines : List String} {target : Target}

theorem chained_of_run (orderly : ∀ isFirst arm, (link isFirst arm).Orderly target .contained)
    (alike : cx.Alike start)
    (ends : (chainLines link isFirst arms).run.run start = .ok (.ok lines, after)) :
    cx.Alike after ∧ ∃ blocks, lines = blocks.flatten ∧ Chained cx link isFirst arms blocks := by
  induction arms generalizing isFirst start lines with
  | nil =>
    cases ends
    exact ⟨alike, [], rfl, .nil⟩
  | cons arm rest ih =>
    obtain ⟨block, between, first, ends⟩ := Trial.bind_eq_ok.mp ends
    obtain ⟨others, last, later, ends⟩ := Trial.bind_eq_ok.mp ends
    cases ends
    have reached := alike.trans (.of_run (orderly isFirst arm) first)
    obtain ⟨left, blocks, rfl, chained⟩ := ih reached later
    exact ⟨left, block :: blocks, rfl, .cons alike first chained⟩

theorem run_chainSwitch {value : Attempt String}
    {link : String → Bool → Arm → Attempt (List String)}
    {finish : List String → Option (List Stmt) → Render (List String)} {cases : List Case}
    (reading : value.Orderly target .contained)
    (orderly : ∀ text isFirst arm, (link text isFirst arm).Orderly target .contained)
    (ends : (chainSwitch value link finish cases).run.run cx = .ok (.ok lines, after)) :
    ∃ text blocks start, Chained cx (link text) true (armsOf cases) blocks ∧ cx.Alike start ∧
      (finish blocks.flatten (fallbackOf cases)).run start = .ok (lines, after) := by
  obtain ⟨_, warned, warns, ends⟩ := Trial.bind_eq_ok.mp ends
  obtain ⟨text, read, reads, ends⟩ := Trial.bind_eq_ok.mp ends
  obtain ⟨chain, start, runs, ends⟩ := Trial.bind_eq_ok.mp ends
  have warning : (liftM (Render.warnFallthrough cases) : Attempt Unit).Orderly target .contained :=
    .lift (.warnFallthrough cases)
  have alike := (Context.Alike.of_run warning warns).trans (.of_run reading reads)
  obtain ⟨reached, blocks, rfl, chained⟩ := chained_of_run (orderly text) alike runs
  obtain ⟨_, _, finished, ends⟩ := Render.bind_eq_ok.mp ends
  cases ends
  exact ⟨text, blocks, start, chained, reached, finished⟩

theorem Chained.exists_block {blocks : List (List String)}
    (chained : Chained cx link isFirst arms blocks) {arm : Arm} (member : arm ∈ arms) :
    ∃ block ∈ blocks, ∃ isFirst start after, cx.Alike start ∧
      (link isFirst arm).run.run start = .ok (.ok block, after) := by
  induction chained with
  | nil => cases member
  | cons alike rendered _ ih =>
    rcases List.mem_cons.mp member with rfl | later
    · exact ⟨_, List.mem_cons_self, _, _, _, alike, rendered⟩
    · obtain ⟨block, inside, found⟩ := ih later
      exact ⟨block, List.mem_cons_of_mem _ inside, found⟩

end Chains

section Renderers

variable {stmts ofCase : List Stmt → Render (List String)}
  {settle : Stmt → Render (List String)}

/-- A renderer that leaves out a `break` at the end renders what is left without it. -/
theorem ofCase_eq (stmtsNil : stmts [] = pure [])
    (stmtsCons : ∀ s rest, stmts (s :: rest) = (do
      let first ← settle s
      let others ← stmts rest
      return first ++ others))
    (caseNil : ofCase [] = pure [])
    (caseCons : ∀ s rest, ofCase (s :: rest) =
      if rest.isEmpty && s.isBreak then pure [] else do
        let first ← settle s
        let others ← ofCase rest
        return first ++ others)
    (body : List Stmt) : ofCase body = stmts (withoutFinalBreak body) := by
  induction body with
  | nil => exact caseNil.trans stmtsNil.symm
  | cons s rest ih =>
    cases rest with
    | nil =>
      rw [withoutFinalBreak_singleton, caseCons, List.isEmpty_nil, Bool.true_and, caseNil]
      split
      · exact stmtsNil.symm
      · rw [stmtsCons, stmtsNil]
    | cons next rest =>
      rw [withoutFinalBreak_cons (List.cons_ne_nil _ _), caseCons, List.isEmpty_cons,
        Bool.false_and, if_neg Bool.false_ne_true, stmtsCons, ih]

variable (links : Bool → List Case → Attempt (List String))
  (link : Bool → List Expr → Render (List String) → Attempt (List String))
  {defaultBody : List Case → Option (Render (List String))}

theorem links_eq_chainLines (same : ∀ body, ofCase body = stmts (withoutFinalBreak body))
    (linksNil : ∀ isFirst, links isFirst [] = pure [])
    (linksCons : ∀ isFirst labels body rest, links isFirst (.mk labels body :: rest) =
      if labels.any SwitchLabel.isDefault then links isFirst rest else do
        let first ← link isFirst (labels.filterMap SwitchLabel.expr?) (ofCase body)
        let others ← links false rest
        return first ++ others)
    (isFirst : Bool) (cases : List Case) : links isFirst cases =
      chainLines (fun isFirst arm => link isFirst arm.tests (stmts arm.body)) isFirst
        (armsOf cases) := by
  induction cases generalizing isFirst with
  | nil => exact linksNil isFirst
  | cons case rest ih =>
    obtain ⟨labels, body⟩ := case
    rw [linksCons]
    split
    next isDefault =>
      have isDefault : (Case.mk labels body).isDefault = true := isDefault
      rw [armsOf_cons_default isDefault, ih]
    next plain =>
      have plain : (Case.mk labels body).isDefault = false := Bool.eq_false_iff.mpr plain
      rw [armsOf_cons plain, ih, same]
      rfl

theorem defaultBody_eq_map (same : ∀ body, ofCase body = stmts (withoutFinalBreak body))
    (defaultNil : defaultBody [] = none)
    (defaultCons : ∀ labels body rest, defaultBody (.mk labels body :: rest) =
      (defaultBody rest).or
        (if labels.any SwitchLabel.isDefault then some (ofCase body) else none))
    (cases : List Case) : defaultBody cases = (fallbackOf cases).map stmts := by
  induction cases with
  | nil => exact defaultNil
  | cons case rest ih =>
    obtain ⟨labels, body⟩ := case
    rw [fallbackOf_cons, defaultCons, ih, same]
    cases fallbackOf rest with
    | some later => rfl
    | none =>
      show (if labels.any SwitchLabel.isDefault then _ else _) = Option.map stmts
        (if labels.any SwitchLabel.isDefault then _ else _)
      split <;> rfl

end Renderers

namespace Python

def armLines (discriminant : String) (isFirst : Bool) (arm : Arm) : Attempt (List String) :=
  linkLines isFirst discriminant arm.tests (stmts arm.body)

theorem stmtsOfCase_eq (body : List Stmt) : stmtsOfCase body = stmts (withoutFinalBreak body) :=
  ofCase_eq rfl (fun _ _ => rfl) rfl (fun _ _ => rfl) body

theorem links_eq (isFirst : Bool) (discriminant : String) (cases : List Case) :
    links isFirst discriminant cases = chainLines (armLines discriminant) isFirst (armsOf cases) :=
  links_eq_chainLines (links · discriminant) (linkLines · discriminant) stmtsOfCase_eq
    (fun _ => rfl) (fun _ _ _ _ => rfl) isFirst cases

theorem defaultBody_eq (cases : List Case) : defaultBody cases = (fallbackOf cases).map stmts := by
  refine defaultBody_eq_map stmtsOfCase_eq rfl (fun labels body rest => ?_) cases
  rw [defaultBody]
  cases defaultBody rest <;> rfl

theorem stmt_switch (discriminant : Expr) (cases : List Case) :
    stmt (.switch discriminant cases) = chainSwitch (operand discriminant) armLines
      (fun chain fallback => chainEnd chain (stmts (fallback.getD []))) cases := by
  have last : (defaultBody cases).getD (return []) = stmts ((fallbackOf cases).getD []) := by
    rw [defaultBody_eq]
    cases fallbackOf cases <;> rfl
  show (do
    Render.warnFallthrough cases
    let text ← operand discriminant
    let chain ← links true text cases
    chainEnd chain ((defaultBody cases).getD (return [])) : Attempt (List String)) = _
  simp only [links_eq, last, chainSwitch]

theorem tests_orderly (text : String) (tests : List Expr) :
    (tests.mapM (labelTest text)).Orderly .python .contained :=
  .mapM (fun label => (operand_orderly label).bind fun _ => .pure _) tests

theorem armLines_orderly (discriminant : String) (isFirst : Bool) (arm : Arm) :
    (armLines discriminant isFirst arm).Orderly .python .contained :=
  linkLines_steady (.inl trivial) (stmts_orderly arm.body) isFirst discriminant (.inl trivial)

theorem run_switch {cases : List Case} {cx after : Context} {lines : List String}
    (ends : (stmt (.switch discriminant cases)).run.run cx = .ok (.ok lines, after)) :
    ∃ text blocks start, Chained cx (armLines text) true (armsOf cases) blocks ∧ cx.Alike start ∧
      (chainEnd blocks.flatten (stmts ((fallbackOf cases).getD []))).run start =
        .ok (lines, after) := by
  rw [stmt_switch] at ends
  exact run_chainSwitch (operand_orderly discriminant) armLines_orderly ends

end Python

namespace C

def armLines (discriminant : String) (isFirst : Bool) (arm : Arm) : Attempt (List String) :=
  linkLines isFirst discriminant arm.tests (stmts arm.body)

theorem stmtsOfCase_eq (body : List Stmt) : stmtsOfCase body = stmts (withoutFinalBreak body) :=
  ofCase_eq rfl (fun _ _ => rfl) rfl (fun _ _ => rfl) body

theorem links_eq (isFirst : Bool) (discriminant : String) (cases : List Case) :
    links isFirst discriminant cases = chainLines (armLines discriminant) isFirst (armsOf cases) :=
  links_eq_chainLines (links · discriminant) (linkLines · discriminant) stmtsOfCase_eq
    (fun _ => rfl) (fun _ _ _ _ => rfl) isFirst cases

theorem defaultBody_eq (cases : List Case) : defaultBody cases = (fallbackOf cases).map stmts := by
  refine defaultBody_eq_map stmtsOfCase_eq rfl (fun labels body rest => ?_) cases
  rw [defaultBody]
  cases defaultBody rest <;> rfl

theorem run_switch_string {cases : List Case} {cx : Context}
    (string : cx.symbols.typeOf discriminant = .string) :
    (stmt (.switch discriminant cases)).run.run cx = (chainSwitch
      (do Render.require .string; expr discriminant) armLines
      (fun chain fallback => chainEnd chain (fallback.map stmts)) cases).run.run cx := by
  show (if cx.symbols.typeOf discriminant = .string then do
      Render.warnFallthrough cases
      Render.require .string
      let text ← expr discriminant
      let chain ← links true text cases
      chainEnd chain (defaultBody cases)
    else _ : Attempt (List String)).run.run cx = _
  simp only [if_pos string, links_eq, defaultBody_eq, chainSwitch, bind_assoc]

theorem tests_orderly (text : String) (tests : List Expr) :
    (tests.mapM (stringTest text)).Orderly .c .contained :=
  .mapM (fun label => (expr_orderly label).bind fun _ => .pure _) tests

theorem header_orderly (text : String) :
    (liftM (Render.line text) : Attempt String).Orderly .c .contained :=
  .line text

theorem armLines_orderly (discriminant : String) (isFirst : Bool) (arm : Arm) :
    (armLines discriminant isFirst arm).Orderly .c .contained :=
  linkLines_orderly isFirst discriminant arm.tests (stmts_orderly arm.body)

theorem stringValue_orderly (discriminant : Expr) :
    (do Render.require .string; expr discriminant : Attempt String).Orderly .c .contained :=
  .bind (.require .string) fun _ => expr_orderly discriminant

theorem run_stringSwitch {cases : List Case} {cx after : Context} {lines : List String}
    (string : cx.symbols.typeOf discriminant = .string)
    (ends : (stmt (.switch discriminant cases)).run.run cx = .ok (.ok lines, after)) :
    ∃ text blocks start, Chained cx (armLines text) true (armsOf cases) blocks ∧ cx.Alike start ∧
      (chainEnd blocks.flatten ((fallbackOf cases).map stmts)).run start = .ok (lines, after) := by
  rw [run_switch_string string] at ends
  exact run_chainSwitch (stringValue_orderly discriminant) armLines_orderly ends

theorem run_nativeSwitch {cases : List Case} {cx after : Context} {lines : List String}
    (other : cx.symbols.typeOf discriminant ≠ .string)
    (ends : (stmt (.switch discriminant cases)).run.run cx = .ok (.ok lines, after)) :
    ∃ header inside close start end_, lines = header :: inside ++ [close] ∧ cx.Alike start ∧
      (nativeCases cases).run.run start = .ok (.ok inside, end_) := by
  obtain ⟨_, _, read, ends⟩ := Trial.bind_eq_ok.mp ends
  cases read
  rw [if_neg other] at ends
  obtain ⟨text, between, reads, ends⟩ := Trial.bind_eq_ok.mp ends
  obtain ⟨header, start, opens, ends⟩ := Trial.bind_eq_ok.mp ends
  obtain ⟨inside, end_, runs, ends⟩ := Trial.bind_eq_ok.mp ends
  obtain ⟨close, _, _, ends⟩ := Trial.bind_eq_ok.mp ends
  cases ends
  have reading : (expr discriminant).Orderly .c .contained := expr_orderly discriminant
  have alike := (Context.Alike.of_run reading reads).trans (.of_run (header_orderly _) opens)
  exact ⟨header, inside, close, start, end_, rfl, alike, runs⟩

end C

end Retarget
