import Retarget.Proofs.LoopIndex
import Retarget.Proofs.View

/-!
# Lengths of arrays

Which array the length of a name measures in C, against the array that the name refers to once
declarations and assignments between names of arrays have been carried out.
-/

namespace Retarget

theorem SymbolTable.lookup_declare (table : SymbolTable) (symbol : Symbol) (name : String) :
    (table.declare symbol).lookup name =
      if name = symbol.sourceName then some symbol else table.lookup name := by
  rw [lookup, declare, scopes, List.findSome?_cons, Scope.find?_insert]
  by_cases same : name = symbol.sourceName
  · rw [if_pos same, if_pos same]
  · rw [if_neg same, if_neg same]
    rfl

/-- Whether a declaration makes an array of its own. -/
def ArrayInit.stores : ArrayInit → Bool
  | .literal _ | .clone _ | .allocate _ => true
  | .alias _ | .absent => false

/-- A statement about arrays of one dimension, under their names. -/
inductive ArrayStep where
  | store (name : String) (element : ValueType) (init : ArrayInit)
  | refer (name : String) (element : ValueType) (source : String)
  | move (target source : String)

namespace ArrayStep

variable {known : List String} {storage : String → String} {table : SymbolTable}

def stmt : ArrayStep → Stmt
  | store name element init => .declareArray name element 1 init
  | refer name element source => .declareArray name element 1 (.alias (.ident source))
  | move target source => .expr (.assign .plain (.ident target) (.ident source))

def declares : ArrayStep → Bool
  | move .. => false
  | _ => true

/-- A step where the `known` names are declared. -/
def Fits (known : List String) : ArrayStep → Prop
  | store name _ init => name ∉ known ∧ init.stores = true
  | refer name _ source => name ∉ known ∧ source ∈ known
  | move target source => target ∈ known ∧ source ∈ known

def namesAfter (known : List String) : ArrayStep → List String
  | store name _ _ | refer name _ _ => name :: known
  | move .. => known

def AllFit (known : List String) : List ArrayStep → Prop
  | [] => True
  | step :: rest => step.Fits known ∧ AllFit (step.namesAfter known) rest

/-- The name with which the array that each name refers to was stored. -/
def storageAfter (storage : String → String) : ArrayStep → String → String
  | store name _ _ => Function.update storage name name
  | refer name _ source | move name source => Function.update storage name (storage source)

def storageOf (steps : List ArrayStep) : String → String :=
  steps.foldl storageAfter id

/-- The array that each name measures, as a table has recorded it, is the one in `storage`. -/
def Measured (table : SymbolTable) (known : List String) (storage : String → String) : Prop :=
  ∀ name ∈ known, storage name ∈ known ∧ ∃ symbol, table.lookup name = some symbol ∧
    symbol.isArray = true ∧
    symbol.aliasOf.getD symbol.targetName = table.targetName (storage name)

theorem Measured.declare {symbol : Symbol} {array : String} (measured : Measured table known storage)
    (new : symbol.sourceName ∉ known) (isArray : symbol.isArray = true)
    (refers : array = symbol.sourceName ∧ symbol.aliasOf = none ∨
      array ∈ known ∧ symbol.aliasOf = some (table.targetName array)) :
    Measured (table.declare symbol) (symbol.sourceName :: known)
      (Function.update storage symbol.sourceName array) := by
  have apart (name : String) (member : name ∈ known) : name ≠ symbol.sourceName :=
    fun same => new (same ▸ member)
  have kept (name : String) (member : name ∈ known) :
      (table.declare symbol).targetName name = table.targetName name := by
    rw [SymbolTable.targetName, table.lookup_declare, if_neg (apart name member)]
    rfl
  refine List.forall_mem_cons.mpr ⟨?_, fun name member => ?_⟩
  · rw [Function.update_self, table.lookup_declare, if_pos rfl]
    obtain ⟨rfl, own⟩ | ⟨member, other⟩ := refers
    · exact ⟨List.mem_cons_self, symbol, rfl, isArray, by rw [own, table.targetName_declare]; rfl⟩
    · exact ⟨List.mem_cons_of_mem _ member, symbol, rfl, isArray, by rw [other, kept _ member]; rfl⟩
  · obtain ⟨stored, found, visible, shaped, same⟩ := measured name member
    rw [Function.update_of_ne (apart name member), table.lookup_declare,
      if_neg (apart name member), kept _ stored]
    exact ⟨List.mem_cons_of_mem _ stored, found, visible, shaped, same⟩

end ArrayStep

namespace C

open ArrayStep

variable {known : List String} {storage : String → String} {cx after : Context} {name : String}

theorem symbols_of_alias {source : String} {element : ValueType} {lines : List String}
    (ends : (declareArrayOf name element 1 (.alias (.ident source))).run.run cx =
      .ok (.ok lines, after)) :
    ∃ typed, after.symbols = cx.symbols.redeclare .c
      { Symbol.array name element 1 none with
        targetType := typed
        aliasOf := some (((cx.symbols.lookup source).bind Symbol.aliasOf).getD
          (cx.symbols.targetName source)) } := by
  obtain ⟨written, between, typed, ends⟩ := Trial.bind_eq_ok.mp ends
  rw [← Render.Steps.symbols_eq (@typeName_steady True .c 0 .contained element) typed]
  obtain ⟨text, _, rendered, ends⟩ := Trial.bind_eq_ok.mp ends
  cases (Target.run_expression_ident .c source between).symm.trans rendered
  obtain ⟨table, _, begun, ends⟩ := Trial.bind_eq_ok.mp ends
  cases run_of_lift begun
  obtain ⟨target, declared, begun, ends⟩ := Trial.bind_eq_ok.mp ends
  obtain ⟨_, _, _, rfl⟩ := Render.run_oneLine_eq_ok (run_of_lift ends)
  exact ⟨_, Render.symbols_of_declareFor (run_of_lift begun)⟩

/-- A declaration records what its name refers to; an assignment leaves the records as they are. -/
theorem measured_of_step {step : ArrayStep} {lines : List String}
    (measured : Measured cx.symbols known storage) (fits : step.Fits known)
    (ends : (stmt step.stmt).run.run cx = .ok (.ok lines, after)) :
    Measured after.symbols (step.namesAfter known)
      (if step.declares then step.storageAfter storage else storage) := by
  cases step with
  | store name element init =>
    obtain ⟨new, stores⟩ := fits
    have stored : (declareArrayOf name element 1 init).Declares .c fun symbol =>
        symbol.sourceName = name ∧ symbol.isArray = true ∧ symbol.aliasOf = none := by
      refine declareArrayOf_declares _ ?_
      rintro size typed aliasOf (rfl | ⟨source, rfl⟩)
      · exact ⟨rfl, rfl, rfl⟩
      · cases stores
    obtain ⟨symbol, ⟨rfl, isArray, own⟩, same⟩ := stored.declared cx lines after ends
    rw [same]
    exact measured.declare new isArray (.inl ⟨rfl, own⟩)
  | refer name element source =>
    obtain ⟨new, member⟩ := fits
    obtain ⟨stored, symbol, visible, -, recorded⟩ := measured source member
    obtain ⟨typed, same⟩ := symbols_of_alias ends
    rw [same]
    refine measured.declare new rfl (.inr ⟨stored, ?_⟩)
    rw [← recorded, SymbolTable.targetName, visible]
    rfl
  | move target source =>
    rw [Render.Steps.symbols_eq (stmt_orderly (move target source).stmt) ends]
    exact measured

theorem measured_of_run {steps : List ArrayStep} {lines : List (List String)}
    (measured : Measured cx.symbols known storage) (fit : AllFit known steps)
    (ends : (steps.mapM fun step => stmt step.stmt).run.run cx = .ok (.ok lines, after)) :
    Measured after.symbols (steps.foldl namesAfter known)
      ((steps.filter declares).foldl storageAfter storage) := by
  induction steps generalizing cx known storage lines with
  | nil =>
    cases ends
    exact measured
  | cons step rest ih =>
    rw [List.mapM_cons] at ends
    obtain ⟨_, between, first, ends⟩ := Trial.bind_eq_ok.mp ends
    obtain ⟨_, _, later, same⟩ := Trial.bind_eq_ok.mp ends
    cases same
    have next := ih (measured_of_step measured fit.1 first) fit.2 later
    cases step <;> exact next

theorem run_length_of_lookup {symbol : Symbol}
    (visible : cx.symbols.lookup name = some symbol) (isArray : symbol.isArray = true) :
    ∃ after, (length (.ident name)).run.run cx =
      .ok (.ok (sizeQuotient (symbol.aliasOf.getD symbol.targetName)), after) := by
  have checked : ∃ after, (checkMeasured symbol).run.run cx = .ok (.ok (), after) := by
    unfold checkMeasured
    rw [if_neg (by simp [Symbol.isStringScalar, isArray])]
    split
    · exact ⟨cx.warn _, rfl⟩
    · exact ⟨cx, rfl⟩
  obtain ⟨after, checked⟩ := checked
  have finished (text : String) :
      (checkMeasured symbol >>= fun _ => pure (sizeQuotient text) : Attempt String).run.run cx =
        .ok (.ok (sizeQuotient text), after) :=
    Trial.bind_eq_ok.mpr ⟨(), after, checked, rfl⟩
  refine ⟨after, Trial.bind_eq_ok.mpr ⟨cx.symbols, cx, rfl, ?_⟩⟩
  simp only [Expr.ident?, Option.bind_some, visible]
  cases symbol.aliasOf with
  | some measured => exact Trial.bind_eq_ok.mpr ⟨measured, cx, rfl, finished _⟩
  | none =>
    have rendered := Target.run_expression_ident .c name cx
    rw [SymbolTable.targetName, visible] at rendered
    have named : (operand (.ident name)).run.run cx = .ok (.ok symbol.targetName, cx) :=
      Trial.bind_eq_ok.mpr ⟨_, cx, rendered, rfl⟩
    exact Trial.bind_eq_ok.mpr ⟨_, cx, named, finished _⟩

/-- The length of an array is that of the array which its name was declared to refer to: the one
that it would refer to if the assignments had not been made. -/
theorem length_measures_declared (settings : Settings) {steps : List ArrayStep}
    (fit : AllFit [] steps) {lines : List (List String)}
    (ends : (steps.mapM fun step => stmt step.stmt).run.run { target := .c, settings } =
      .ok (.ok lines, cx)) (declared : name ∈ steps.foldl namesAfter []) :
    ∃ after, (length (.ident name)).run.run cx = .ok (.ok (sizeQuotient
      (cx.symbols.targetName (storageOf (steps.filter declares) name))), after) := by
  have begins : Measured {} [] id := nofun
  have measured := measured_of_run begins fit ends
  obtain ⟨-, symbol, visible, isArray, same⟩ := measured name declared
  rw [storageOf, ← same]
  exact run_length_of_lookup visible isArray

/-- A chain of two aliases measures the renamed array at its end. -/
theorem length_measures_declared_chain :
    let steps : List ArrayStep := [.store "register" .int (.literal [.literal (.int "7")]),
      .store "a" .int (.allocate [.literal (.int "3")]), .refer "b" .int "register",
      .refer "d" .int "b", .move "a" "d", .store "e" .int (.clone (.ident "d"))]
    ∃ lines cx after, (steps.mapM fun step => stmt step.stmt).run.run { target := .c } =
        .ok (.ok lines, cx) ∧
      (length (.ident "d")).run.run cx =
        .ok (.ok "sizeof(register_var) / sizeof(register_var[0])", after) := by
  intro steps
  have fit : AllFit [] steps := by simp [steps, AllFit, ArrayStep.Fits, namesAfter, ArrayInit.stores]
  have reached : ∃ result cx, (steps.mapM fun step => stmt step.stmt).run.run { target := .c } =
      .ok (result, cx) ∧ result.isOk = true ∧
      cx.symbols.targetName (storageOf (steps.filter declares) "d") = "register_var" := by
    decide +kernel
  obtain ⟨_ | lines, cx, ends, rendered, named⟩ := reached
  · cases rendered
  · obtain ⟨after, measured⟩ :=
      length_measures_declared {} fit ends (show "d" ∈ steps.foldl namesAfter [] by decide)
    rw [named] at measured
    exact ⟨lines, cx, after, ends, measured⟩

/-- After `b = c` the length of `b` is still that of the array `a`. -/
theorem length_misses_assignment :
    let steps : List ArrayStep := [.store "a" .int (.literal [.literal (.int "1")]),
      .store "c" .int (.literal [.literal (.int "2"), .literal (.int "3")]),
      .refer "b" .int "a", .move "b" "c"]
    storageOf steps "b" = "c" ∧
      ∃ result cx, (steps.mapM fun step => stmt step.stmt).run.run { target := .c } =
        .ok (result, cx) ∧ ∃ text after, (length (.ident "b")).run.run cx = .ok (text, after) ∧
        text.toOption = some "sizeof(a) / sizeof(a[0])" := by decide +kernel

end C

end Retarget
