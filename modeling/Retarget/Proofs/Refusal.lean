import Retarget.Proofs.Strict

/-!
# Refused statements declare nothing

A refused statement leaves the symbol table as it was. A line made from its bare text may then
declare a name, but such a line begins with a name or a type, so it is never taken for the
placeholder that is left when there is no such line.
-/

namespace Retarget

variable {name text : String} {type : ValueType} {result value : Option String}

namespace Degraded

variable {cx after : Context}

def beginsName (text : String) : Bool :=
  text.toList.head?.any isNameStart

theorem beginsName_append {first : String} (begins : beginsName first = true) (second : String) :
    beginsName (first ++ second) = true := by
  unfold beginsName at *
  cases letters : first.toList with
  | nil => simp [letters] at begins
  | cons c cs =>
    rw [letters] at begins
    rw [String.toList_append, letters]
    exact begins

theorem beginsName_of_name? {cs name rest : List Char} (found : name? cs = some (name, rest)) :
    beginsName (String.ofList name) = true := by
  unfold name? at found
  split at found
  next c cs =>
    split at found
    next begins =>
      cases found
      simp [beginsName, begins]
    next => cases found
  next => cases found

theorem beginsName_of_declaration? {cs : List Char}
    (found : declaration? cs = some (.declaration type name value)) : beginsName name = true := by
  simp only [declaration?, Option.bind_eq_bind, Option.bind_eq_some_iff] at found
  obtain ⟨⟨_, rest⟩, _, ⟨letters, rest⟩, named, found⟩ := found
  split at found
  · cases found
    exact beginsName_of_name? named
  · obtain ⟨_, _, same⟩ := Option.map_eq_some_iff.mp found
    cases same
    exact beginsName_of_name? named
  · cases found

theorem print?_ne_declaration (cs : List Char) (type : ValueType) (name : String)
    (value : Option String) : print? cs ≠ some (.declaration type name value) := by
  intro found
  simp only [print?, Option.bind_eq_bind, Option.bind_eq_some_iff] at found
  obtain ⟨_, _, _, _, _, _, found⟩ := found
  split at found
  · cases found
  · cases found

theorem assignment?_ne_declaration (cs : List Char) (type : ValueType) (name : String)
    (value : Option String) : assignment? cs ≠ some (.declaration type name value) := by
  intro found
  simp only [assignment?, Option.bind_eq_bind, Option.bind_eq_some_iff] at found
  obtain ⟨_, _, _, _, _, _, found⟩ := found
  cases found

theorem beginsName_of_shape? (found : shape? text = some (.declaration type name value)) :
    beginsName name = true := by
  simp only [shape?, Option.orElse_eq_orElse, Option.orElse_eq_or, Option.or_eq_some_iff] at found
  rcases found with declared | ⟨_, printed | ⟨_, assigned⟩⟩
  · exact beginsName_of_declaration? declared
  · exact (print?_ne_declaration _ _ _ _ printed).elim
  · exact (assignment?_ne_declaration _ _ _ _ assigned).elim

theorem beginsName_of_typeName {written : String}
    (ends : (C.typeName type).run.run cx = .ok (.ok written, after)) :
    beginsName written = true := by
  cases type <;> cases ends <;> decide

theorem beginsName_of_chooseName {reserved : List String} {chosen : String}
    (begins : beginsName name = true)
    (ends : (Render.chooseName reserved name).run cx = .ok (chosen, after)) :
    beginsName chosen = true := by
  obtain ⟨_, rfl, _⟩ | ⟨_, rfl, _⟩ := Render.run_chooseName_eq_ok ends
  · exact begins
  · unfold SymbolTable.substituteFor
    obtain ⟨n, _, found⟩ := Naming.exists_firstFree_eq (cx.symbols.takenBound + reserved.length) 1
    rw [found, Naming.substitute]
    split
    · exact beginsName_append begins _
    · exact beginsName_append (beginsName_append begins _) _

def IsSimpleValue (value : Option String) : Prop :=
  ∀ text, value = some text → isSimple (Text.trimChars text.toList) = true

theorem isSimple_of_respelled? {spell : String → String} {value written : String}
    (respelled : respelled? spell value = some written) :
    isSimple (Text.trimChars value.toList) = true := by
  unfold respelled? at respelled
  dsimp only at respelled
  split at respelled
  · assumption
  · cases respelled

/-- A line made from a text leaves the symbols as they are, or it declares what the text declares,
and then begins like a name. -/
def DeclaresByName (target : Target) (text : String) (cx : Context) (result : Option String)
    (after : Context) : Prop :=
  after.symbols = cx.symbols ∨ ∃ type name value typed written,
    shape? text = some (.declaration type name value) ∧ IsSimpleValue value ∧
    after.symbols = cx.symbols.redeclare target
      { Symbol.scalar name type with targetType := typed } ∧
    result = some written ∧ beginsName written = true

theorem cDeclaration_declaresByName (found : shape? text = some (.declaration type name value))
    (ends : (cDeclaration type name value).run cx = .ok (result, after)) :
    DeclaresByName .c text cx result after := by
  obtain ⟨table, _, begun, ends⟩ := Render.bind_eq_ok.mp ends
  cases begun
  split at ends
  · cases ends
    exact .inl rfl
  · obtain ⟨typeWritten, between, typed, ends⟩ := Render.bind_eq_ok.mp ends
    have unchanged : between.symbols = cx.symbols :=
      Render.Steps.symbols_eq (@C.typeName_steady True .c 0 .contained type) typed
    cases typeWritten with
    | error refusal =>
      cases ends
      exact .inl unchanged
    | ok typeName =>
      dsimp only at ends
      split at ends
      · cases ends
        exact .inl unchanged
      next init spelled =>
        have made {start final : Context} {declared : String}
            (same : start.symbols = between.symbols) (declares : (Render.declareFor .c
              { Symbol.scalar name type with targetType := some typeName }).run start =
                .ok (declared, final)) : DeclaresByName .c text cx
            (some (typeName ++ " " ++ declared ++ " = " ++ init ++ ";")) final := by
          refine .inr ⟨type, name, value, typeName, _, found, ?_, ?_, rfl, ?_⟩
          · rintro text rfl
            exact isSimple_of_respelled? spelled
          · rw [Render.symbols_of_declareFor declares, same, unchanged]
          · simp only [String.append_assoc]
            exact beginsName_append (beginsName_of_typeName typed) _
        split at ends
        · obtain ⟨_, _, required, ends⟩ := Render.bind_eq_ok.mp ends
          cases required
          obtain ⟨declared, _, declares, ends⟩ := Render.bind_eq_ok.mp ends
          cases ends
          exact made (by rfl) declares
        · obtain ⟨declared, _, declares, ends⟩ := Render.bind_eq_ok.mp ends
          cases ends
          exact made rfl declares

theorem cLine_declaresByName (ends : (cLine text).run cx = .ok (result, after)) :
    DeclaresByName .c text cx result after := by
  unfold cLine at ends
  split at ends
  · cases ends
    exact .inl rfl
  next found => exact cDeclaration_declaresByName found ends
  · cases ends
    exact .inl rfl
  · obtain ⟨table, _, begun, ends⟩ := Render.bind_eq_ok.mp ends
    cases begun
    split at ends
    · cases ends
      exact .inl rfl
    · cases ends
      exact .inl rfl

theorem pythonLine_declaresByName (ends : (pythonLine text).run cx = .ok (result, after)) :
    DeclaresByName .python text cx result after := by
  unfold pythonLine at ends
  split at ends
  · cases ends
    exact .inl rfl
  next type name value found =>
    obtain ⟨table, _, begun, ends⟩ := Render.bind_eq_ok.mp ends
    cases begun
    dsimp only at ends
    split at ends
    · cases ends
      exact .inl rfl
    next init spelled =>
      obtain ⟨declared, _, declares, ends⟩ := Render.bind_eq_ok.mp ends
      have declaring := Render.symbols_of_declareFor declares
      obtain ⟨_, choice, _⟩ := Render.run_declareFor_eq_ok declares
      have begins := beginsName_of_chooseName (beginsName_of_shape? found) choice
      cases ends
      refine .inr ⟨type, name, value, none, _, found, ?_, declaring, rfl,
        beginsName_append (beginsName_append begins _) _⟩
      rintro text rfl
      exact isSimple_of_respelled? spelled
  · cases ends
    exact .inl rfl
  · obtain ⟨table, _, begun, ends⟩ := Render.bind_eq_ok.mp ends
    cases begun
    cases ends
    exact .inl rfl

theorem line_declaresByName {target : Target}
    (ends : (line target text).run cx = .ok (result, after)) :
    DeclaresByName target text cx result after := by
  cases target with
  | c => exact cLine_declaresByName ends
  | python => exact pythonLine_declaresByName ends

end Degraded

theorem Target.beginsName_placeholder (target : Target) (construct : String) :
    Degraded.beginsName (target.placeholder construct) = false := by
  cases target <;> simp [Degraded.beginsName, placeholder, commentMark] <;> decide

theorem Context.line_injective {cx other : Context} {another line : String}
    (indent : other.indent = cx.indent) (settings : other.settings = cx.settings)
    (written : cx.line text = .ok line) (alsoWritten : other.line another = .ok line) :
    text = another := by
  unfold Context.line at written alsoWritten
  rw [indent, settings] at alsoWritten
  cases width : mulWords cx.indent cx.settings.indentWidth with
  | error fault => simp [width, bind, Except.bind] at written
  | ok columns =>
    cases margin : spaces columns with
    | error fault => simp [width, margin, bind, Except.bind] at written
    | ok blanks =>
      simp only [width, margin, bind, Except.bind, pure, Except.pure, Except.ok.injEq]
        at written alsoWritten
      exact (String.append_right_inj blanks).mp (written.trans alsoWritten.symm)

namespace Render

variable {target : Target} {source : Option String} {stmt : Stmt} {cx after : Context}

theorem begins_of_degradedLine
    (ends : (degradedLine target source stmt).run cx = .ok (result, after)) :
    after.symbols = cx.symbols ∨
      ∃ written, result = some written ∧ Degraded.beginsName written = true := by
  unfold degradedLine at ends
  split at ends
  · exact (Degraded.line_declaresByName ends).imp_right
      fun ⟨_, _, _, _, written, _, _, _, begun⟩ => ⟨written, begun⟩
  · cases ends
    exact .inl rfl

theorem run_settle_of_refused {attempt : Attempt (List String)} {between : Context}
    {refusal : Refusal} (refused : attempt.run.run cx = .ok (.error refusal, between)) :
    (settle target source stmt attempt).run cx =
      (degrade target source stmt refusal.message).run between := by
  rw [settle, run_bind, refused]
  rfl

theorem symbols_eq_of_degrade_placeholder {reason placeholder : String}
    (shown : cx.line (target.placeholder stmt.construct) = .ok placeholder)
    (ends : (degrade target source stmt reason).run cx = .ok ([placeholder], after)) :
    after.symbols = cx.symbols := by
  have orderly : (degrade target source stmt reason).Orderly target .declaring :=
    degrade_steady source stmt reason
  have kept : cx.Frame after := orderly.frame ends
  obtain ⟨degraded, between, made, ends⟩ := bind_eq_ok.mp ends
  cases degraded with
  | none =>
    obtain ⟨_, _, _, rfl⟩ := run_warn_oneLine_eq_ok ends
    obtain unchanged | ⟨_, absent, _⟩ := begins_of_degradedLine made
    · rw [Context.symbols_warn, unchanged]
    · cases absent
  | some text =>
    obtain ⟨_, written, same, rfl⟩ := run_warn_oneLine_eq_ok ends
    cases same
    obtain unchanged | ⟨_, same, begins⟩ := begins_of_degradedLine made
    · rw [Context.symbols_warn, unchanged]
    · -- A line that declares would have to be the placeholder's comment.
      cases same
      have same := Context.line_injective kept.indent kept.settings shown written
      rw [← same, Target.beginsName_placeholder] at begins
      cases begins

end Render

/-- A refused statement declares nothing, nor does its placeholder, and of the statements that are
rendered only declarations and sequences declare anything. -/
theorem Target.declarations_atomic (target : Target) (stmt : Stmt) (cx : Context) :
    (∀ refusal after, (target.statement stmt).run.run cx = .ok (.error refusal, after) →
      after.symbols = cx.symbols ∧
        ∀ source placeholder final,
          cx.line (target.placeholder stmt.construct) = .ok placeholder →
          (target.renderStatement source stmt).run cx = .ok ([placeholder], final) →
          final.symbols = cx.symbols) ∧
      (∀ lines after, (target.statement stmt).run.run cx = .ok (.ok lines, after) →
        stmt.extent = .contained → after.symbols = cx.symbols) := by
  refine ⟨?_, ?_⟩
  · intro refusal after refused
    have unchanged : after.symbols = cx.symbols :=
      (target.statement_atomic stmt).unchanged cx refusal after refused
    refine ⟨unchanged, ?_⟩
    intro source placeholder final shown ends
    have kept : cx.Frame after := (target.statement_orderly stmt).frame refused
    have shownAfter : after.line (target.placeholder stmt.construct) = .ok placeholder := by
      rw [← shown]
      unfold Context.line
      rw [kept.indent, kept.settings]
    rw [renderStatement, Render.run_settle_of_refused refused] at ends
    calc final.symbols = after.symbols := Render.symbols_eq_of_degrade_placeholder shownAfter ends
      _ = cx.symbols := unchanged
  · intro lines after ends contained
    have orderly := target.statement_orderly stmt
    rw [contained] at orderly
    exact Render.Steps.symbols_eq orderly ends

/-- A loop that is refused for its condition after its variable was declared leaves a placeholder
and no name, and a block keeps its names to itself. -/
theorem Target.declarations_atomic_refused_loop :
    let loop := Stmt.forLoop (some (.declare "i" .int none))
      (some (.assign .plain (.ident "i") (.ident "x"))) [] []
    let block := Stmt.block [.declare "y" .int none]
    let cx : Context := { target := .python, symbols := { inner := [Symbol.scalar "x" .int] } }
    (∃ result after, (Target.python.statement loop).run.run cx = .ok (result, after) ∧
        result.isOk = false ∧ after.symbols = cx.symbols) ∧
      (∃ lines after, (Target.python.renderStatement (some "f();") loop).run cx =
        .ok (lines, after) ∧ lines = ["# unsupported: for"] ∧ after.symbols = cx.symbols) ∧
      (∃ result after, (Target.python.statement block).run.run cx = .ok (result, after) ∧
        result.isOk = true ∧ after.symbols = cx.symbols) := by
  intro loop block cx
  have refused : ∃ result after, (Target.python.statement loop).run.run cx =
      .ok (result, after) ∧ result.isOk = false := by decide +kernel
  have placed : ∃ lines after, (Target.python.renderStatement (some "f();") loop).run cx =
      .ok (lines, after) ∧ lines = ["# unsupported: for"] := by decide +kernel
  have rendered : ∃ result after, (Target.python.statement block).run.run cx =
      .ok (result, after) ∧ result.isOk = true := by decide +kernel
  obtain ⟨refusal | lines, after, refused, notOk⟩ := refused
  · obtain ⟨unchanged, kept⟩ := (declarations_atomic .python loop cx).1 refusal after refused
    refine ⟨⟨_, after, refused, notOk, unchanged⟩, ?_, ?_⟩
    · obtain ⟨lines, final, ends, rfl⟩ := placed
      exact ⟨_, final, ends, rfl, kept (some "f();") "# unsupported: for" final rfl ends⟩
    · obtain ⟨refusal | lines, final, ends, isOk⟩ := rendered
      · cases isOk
      · exact ⟨_, final, ends, isOk, (declarations_atomic .python block cx).2 lines final ends rfl⟩
  · cases notOk

end Retarget
