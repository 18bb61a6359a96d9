import Retarget.Scope.Typing

/-!
# The source's view of a symbol table

What the source program says about a name is its profile: its type, whether it is an array, and of
which type and how many dimensions.
-/

namespace Retarget

/-- What the source program says about a name. -/
structure Profile where
  type : ValueType
  isArray : Bool
  element? : Option ValueType
  dimensions : Nat
  deriving DecidableEq

namespace Profile

def scalar (type : ValueType) : Profile :=
  { type, isArray := false, element? := none, dimensions := 0 }

def array (element : ValueType) (dimensions : Nat) : Profile :=
  { type := element, isArray := true, element? := some element, dimensions }

end Profile

def Symbol.profile (symbol : Symbol) : Profile where
  type := symbol.type
  isArray := symbol.isArray
  element? := symbol.element?
  dimensions := symbol.dimensions

def Scope.view (scope : Scope) (name : String) : Option Profile :=
  (scope.find? name).map Symbol.profile

theorem Scope.find?_insert (scope : Scope) (symbol : Symbol) (name : String) :
    (scope.insert symbol).find? name =
      if name = symbol.sourceName then some symbol else scope.find? name := by
  unfold insert find?
  split
  next same => simp [same]
  next different =>
    rw [List.find?_cons_of_neg (by simpa using fun same => different same.symm), List.find?_filter]
    congr 1
    funext other
    grind

theorem Scope.view_insert (scope : Scope) (symbol : Symbol) :
    (scope.insert symbol).view = fun name =>
      if name = symbol.sourceName then some symbol.profile else scope.view name := by
  funext name
  rw [view, find?_insert]
  split
  · rfl
  · rfl

namespace SymbolTable

variable {table other : SymbolTable}

def view (table : SymbolTable) : List (String → Option Profile) :=
  table.scopes.map Scope.view

theorem view_push (same : table.view = other.view) : table.push.view = other.push.view :=
  congrArg (Scope.view [] :: ·) same

theorem view_pop (same : table.view = other.view) : table.pop.view = other.pop.view := by
  obtain ⟨inner, outer⟩ := table
  obtain ⟨otherInner, otherOuter⟩ := other
  cases outer with
  | nil =>
    cases otherOuter with
    | nil => exact same
    | cons scope rest => simp [view, scopes] at same
  | cons scope rest =>
    cases otherOuter with
    | nil => simp [view, scopes] at same
    | cons otherScope otherRest => exact (List.cons.inj same).2

theorem view_declare (same : table.view = other.view) {symbol twin : Symbol}
    (name : symbol.sourceName = twin.sourceName) (profile : symbol.profile = twin.profile) :
    (table.declare symbol).view = (other.declare twin).view := by
  obtain ⟨inner, outer⟩ := List.cons.inj same
  have declared : (table.inner.insert symbol).view = (other.inner.insert twin).view := by
    rw [Scope.view_insert, Scope.view_insert, name, profile, inner]
  unfold view scopes declare
  rw [List.map_cons, List.map_cons, declared, outer]

theorem view_redeclare {symbol : Symbol}
    (known : table.inner.view symbol.sourceName = some symbol.profile) :
    (table.declare symbol).view = table.view := by
  have inner : (table.inner.insert symbol).view = table.inner.view := by
    rw [Scope.view_insert]
    funext name
    split
    next same => rw [same, known]
    next => rfl
  unfold view scopes declare
  rw [List.map_cons, List.map_cons, inner]

theorem lookup_profile (table : SymbolTable) (name : String) :
    (table.lookup name).map Symbol.profile = table.view.findSome? (· name) := by
  unfold lookup view
  generalize table.scopes = scopes
  induction scopes with
  | nil => rfl
  | cons scope rest ih =>
    rw [List.findSome?_cons, List.map_cons, List.findSome?_cons]
    unfold Scope.view at *
    cases scope.find? name with
    | none => exact ih
    | some symbol => rfl

theorem lookup_of_view (same : table.view = other.view) (name : String) :
    (table.lookup name = none ∧ other.lookup name = none) ∨
      ∃ symbol twin, table.lookup name = some symbol ∧ other.lookup name = some twin ∧
        symbol.profile = twin.profile := by
  have profiles : (table.lookup name).map Symbol.profile =
      (other.lookup name).map Symbol.profile := by
    rw [lookup_profile, lookup_profile, same]
  cases found : table.lookup name with
  | none =>
    rw [found] at profiles
    exact .inl ⟨rfl, Option.map_eq_none_iff.mp profiles.symm⟩
  | some symbol =>
    rw [found] at profiles
    obtain ⟨twin, twinFound, profile⟩ := Option.map_eq_some_iff.mp profiles.symm
    exact .inr ⟨symbol, twin, rfl, twinFound, profile.symm⟩

theorem arrayNamed_of_view (same : table.view = other.view) (e : Expr) :
    ((e.ident?.bind table.lookup).filter Symbol.isArray = none ∧
        (e.ident?.bind other.lookup).filter Symbol.isArray = none) ∨
      ∃ symbol twin, (e.ident?.bind table.lookup).filter Symbol.isArray = some symbol ∧
        (e.ident?.bind other.lookup).filter Symbol.isArray = some twin ∧
        symbol.profile = twin.profile := by
  cases e.ident? with
  | none => exact .inl ⟨rfl, rfl⟩
  | some name =>
    rw [Option.bind_some, Option.bind_some]
    obtain ⟨absent, alsoAbsent⟩ | ⟨symbol, twin, found, alsoFound, profile⟩ :=
      lookup_of_view same name
    · rw [absent, alsoAbsent]
      exact .inl ⟨rfl, rfl⟩
    · have isArray : symbol.isArray = twin.isArray := congrArg Profile.isArray profile
      rw [found, alsoFound, Option.filter_some, Option.filter_some, isArray]
      cases twin.isArray with
      | true => exact .inr ⟨symbol, twin, rfl, rfl, profile⟩
      | false => exact .inl ⟨rfl, rfl⟩

theorem identType_of_view (same : table.view = other.view) (name : String) :
    table.identType name = other.identType name := by
  unfold identType
  obtain ⟨absent, alsoAbsent⟩ | ⟨symbol, twin, found, alsoFound, profile⟩ :=
    lookup_of_view same name
  · rw [absent, alsoAbsent]
  · have isArray : symbol.isArray = twin.isArray := congrArg Profile.isArray profile
    have type : symbol.type = twin.type := congrArg Profile.type profile
    simp only [found, alsoFound, isArray, type]

theorem accessType_of_view (same : table.view = other.view) (root : Option String) (depth : Nat) :
    table.accessType root depth = other.accessType root depth := by
  cases root with
  | none => rfl
  | some name =>
    unfold accessType
    rw [Option.bind_some, Option.bind_some]
    obtain ⟨absent, alsoAbsent⟩ | ⟨symbol, twin, found, alsoFound, profile⟩ :=
      lookup_of_view same name
    · rw [absent, alsoAbsent]
    · have isArray : symbol.isArray = twin.isArray := congrArg Profile.isArray profile
      have dimensions : symbol.dimensions = twin.dimensions :=
        congrArg Profile.dimensions profile
      have type : symbol.type = twin.type := congrArg Profile.type profile
      simp only [found, alsoFound, isArray, dimensions, type]

mutual

theorem typeOf_of_view (same : table.view = other.view) :
    (e : Expr) → table.typeOf e = other.typeOf e
  | .literal _ => rfl
  | .ident name => identType_of_view same name
  | .binary op left right => by
    rw [typeOf, typeOf, typeOf_of_view same left, typeOf_of_view same right]
  | .unary op operand => by
    cases op <;> simp only [typeOf, typeOf_of_view same operand]
  | .logical .. => by rw [typeOf, typeOf]
  | .compare .. => by rw [typeOf, typeOf]
  | .assign _ target _ => by rw [typeOf, typeOf, typeOf_of_view same target]
  | .update _ _ target => by rw [typeOf, typeOf, typeOf_of_view same target]
  | .index array _ => accessType_of_view same _ _
  | .member .. => by rw [typeOf, typeOf]
  | .arrayLiteral _ => by rw [typeOf, typeOf]
  | .ternary _ onTrue onFalse => by
    rw [typeOf, typeOf, typeOf_of_view same onTrue, typeOf_of_view same onFalse]
  | .cast .. => by rw [typeOf, typeOf]
  | .call _ _ args => by rw [typeOf, typeOf, typesOf_of_view same args]

theorem typesOf_of_view (same : table.view = other.view) :
    (es : List Expr) → table.typesOf es = other.typesOf es
  | [] => rfl
  | e :: rest => by
    rw [typesOf, typesOf, typeOf_of_view same e, typesOf_of_view same rest]

end

end SymbolTable

end Retarget
