import Retarget.Proofs.Layout

/-!
# The search for a name

A name is searched for along a series, one candidate after the other, and nothing bounds the search
but that it stops at the first free one.
-/

namespace Retarget

namespace Naming

variable {blocked : String → Bool} {candidate : Nat → String} {n : Nat} {name : String}

/-- The search along a series from its member `n` on stops, and this is the name it stops at. -/
inductive Search (blocked : String → Bool) (candidate : Nat → String) : Nat → String → Prop where
  | found {n : Nat} (free : blocked (candidate n) = false) :
      Search blocked candidate n (candidate n)
  | next {n : Nat} {name : String} (refused : blocked (candidate n) = true)
      (later : Search blocked candidate (n + 1) name) : Search blocked candidate n name

theorem Search.first (search : Search blocked candidate n name) :
    ∃ m, n ≤ m ∧ name = candidate m ∧ blocked name = false ∧
      ∀ k, n ≤ k → k < m → blocked (candidate k) = true := by
  induction search with
  | found free => exact ⟨_, Nat.le_refl _, rfl, free, fun k begun before => by omega⟩
  | @next n name refused _ ih =>
    obtain ⟨m, later, found, free, passed⟩ := ih
    refine ⟨m, by omega, found, free, fun k begun before => ?_⟩
    by_cases here : k = n
    · rw [here]
      exact refused
    · exact passed k (by omega) before

/-- A bounded search that comes to a free name has gone the way of the unbounded one. -/
theorem search_firstFree {tries : Nat}
    (free : blocked (firstFree blocked candidate tries n) = false) :
    Search blocked candidate n (firstFree blocked candidate tries n) := by
  induction tries generalizing n with
  | zero => exact .found free
  | succ tries ih =>
    rw [firstFree] at free ⊢
    split at free
    next refused =>
      rw [if_pos refused]
      exact .next refused (ih free)
    next notRefused =>
      rw [if_neg notRefused]
      exact .found free

theorem substitute_ne (name : String) (n : Nat) : substitute name n ≠ name := by
  have mark : "_var".length = 4 := by decide
  intro same
  have lengths := congrArg String.length same
  unfold substitute at lengths
  split at lengths <;> simp only [String.length_append] at lengths <;> omega

end Naming

namespace SymbolTable

open Naming

variable {table : SymbolTable} {name : String}

def Visible (table : SymbolTable) (name : String) : Prop :=
  ∃ scope ∈ table.scopes, ∃ symbol ∈ scope, symbol.sourceName = name ∨ symbol.targetName = name

def VisibleElsewhere (table : SymbolTable) (name : String) : Prop :=
  ∃ scope ∈ table.scopes, ∃ symbol ∈ scope, symbol.targetName = name ∧ symbol.sourceName ≠ name

theorem exists_mem_symbols {holds : Symbol → Prop} : (∃ symbol ∈ table.symbols, holds symbol) ↔
      ∃ scope ∈ table.scopes, ∃ symbol ∈ scope, holds symbol := by
  simp only [symbols, List.mem_flatten]
  constructor
  · rintro ⟨symbol, ⟨scope, inTable, inScope⟩, fact⟩
    exact ⟨scope, inTable, symbol, inScope, fact⟩
  · rintro ⟨scope, inTable, symbol, inScope, fact⟩
    exact ⟨symbol, ⟨scope, inTable, inScope⟩, fact⟩

theorem isTaken_iff : table.isTaken name = true ↔ table.Visible name := by
  rw [isTaken, Visible, ← exists_mem_symbols]
  simp only [List.any_eq_true, Bool.or_eq_true, decide_eq_true_eq]

theorem isTargetOfOther_iff : table.isTargetOfOther name = true ↔ table.VisibleElsewhere name := by
  rw [isTargetOfOther, VisibleElsewhere, ← exists_mem_symbols]
  simp only [List.any_eq_true, Bool.and_eq_true, decide_eq_true_eq]

theorem collides_iff {reserved : List String} :
    table.collides reserved name = true ↔ name ∈ reserved ∨ table.VisibleElsewhere name := by
  rw [collides, Bool.or_eq_true, decide_eq_true_eq, isTargetOfOther_iff]

def blocks (table : SymbolTable) (reserved : List String) (candidate : String) : Bool :=
  table.isTaken candidate || candidate ∈ reserved

theorem blocks_iff {reserved : List String} {candidate : String} :
    table.blocks reserved candidate = true ↔ table.Visible candidate ∨ candidate ∈ reserved := by
  rw [blocks, Bool.or_eq_true, decide_eq_true_eq, isTaken_iff]

theorem not_visible_of_free {candidate : String} (free : table.isTaken candidate = false) :
    ¬table.Visible candidate := by
  rw [← isTaken_iff, free]
  exact Bool.false_ne_true

theorem search_substituteFor (table : SymbolTable) (reserved : List String) (name : String) :
    Search (table.blocks reserved) (substitute name) 1 (table.substituteFor reserved name) := by
  obtain ⟨notTaken, notReserved⟩ := table.substituteFor_free reserved name
  refine search_firstFree (Bool.or_eq_false_iff.mpr ⟨notTaken, ?_⟩)
  exact decide_eq_false notReserved

theorem search_numbered (table : SymbolTable) (base : String) :
    Search table.isTaken (numbered base) 2
      (firstFree table.isTaken (numbered base) table.takenBound 2) := by
  refine search_firstFree (firstFree_free table.takenNames ?_ ?_ ?_)
  · exact Nat.le_of_eq table.length_takenNames
  · exact fun _ _ taken => mem_takenNames_of_isTaken taken
  · exact fun _ _ _ _ same => numbered_injective base same

theorem freshName_cases (table : SymbolTable) (base : String) :
    table.freshName base ∈ (if base = "i" then ["i", "j", "k"] else [base]) ∨
      Search table.isTaken (numbered base) 2 (table.freshName base) := by
  unfold freshName
  generalize (if base = "i" then ["i", "j", "k"] else [base]) = preferred
  dsimp only
  split
  next name found => exact .inl (List.mem_of_find?_eq_some found)
  next => exact .inr (table.search_numbered base)

end SymbolTable

/-- Names exist and are found. Whatever symbols are in scope and whatever words are reserved, the
searches along `name_var`, `name_var2`, … and along `base2`, `base3`, … stop. The name chosen for a
declaration is its own exactly if it is not reserved and is no other symbol's name in the output.
Otherwise it is the first of its substitutes that is not reserved and is the name of no symbol in
any scope. A fresh name is a preferred one or the one that its search stops at, and it is that of no
symbol in any scope. -/
theorem names_found (cx : Context) (reserved : List String) (name base : String) :
    (∃ found, Naming.Search (cx.symbols.blocks reserved) (Naming.substitute name) 1 found) ∧
    (∃ found, Naming.Search cx.symbols.isTaken (Naming.numbered base) 2 found) ∧
    (∃ chosen after, (Render.chooseName reserved name).run cx = .ok (chosen, after) ∧
      (chosen = name ↔ name ∉ reserved ∧ ¬cx.symbols.VisibleElsewhere name) ∧
      (chosen ≠ name → ∃ n, 1 ≤ n ∧ chosen = Naming.substitute name n ∧
        chosen ∉ reserved ∧ ¬cx.symbols.Visible chosen ∧
        ∀ m, 1 ≤ m → m < n → Naming.substitute name m ∈ reserved ∨
          cx.symbols.Visible (Naming.substitute name m))) ∧
    (cx.symbols.freshName base ∈ (if base = "i" then ["i", "j", "k"] else [base]) ∨
      Naming.Search cx.symbols.isTaken (Naming.numbered base) 2 (cx.symbols.freshName base)) ∧
    ¬cx.symbols.Visible (cx.symbols.freshName base) := by
  refine ⟨⟨_, cx.symbols.search_substituteFor reserved name⟩,
    ⟨_, cx.symbols.search_numbered base⟩, ?_, cx.symbols.freshName_cases base,
    SymbolTable.not_visible_of_free (cx.symbols.freshName_free base)⟩
  have kept_iff : cx.symbols.collides reserved name = false ↔
      name ∉ reserved ∧ ¬cx.symbols.VisibleElsewhere name := by
    rw [← Bool.not_eq_true, SymbolTable.collides_iff, not_or]
  cases collides : cx.symbols.collides reserved name with
  | false =>
    refine ⟨name, cx, Render.run_chooseName_of_free collides, ?_, fun other => (other rfl).elim⟩
    exact iff_of_true rfl (kept_iff.mp collides)
  | true =>
    obtain ⟨n, positive, found, -, passed⟩ :=
      (cx.symbols.search_substituteFor reserved name).first
    obtain ⟨notTaken, notReserved⟩ := cx.symbols.substituteFor_free reserved name
    refine ⟨_, _, Render.run_chooseName_of_collides collides, ?_, fun _ => ?_⟩
    · refine iff_of_false (found ▸ Naming.substitute_ne name n) fun kept => ?_
      rw [kept_iff.mpr kept] at collides
      cases collides
    · refine ⟨n, positive, found, notReserved, SymbolTable.not_visible_of_free notTaken, ?_⟩
      intro m begun before
      exact (SymbolTable.blocks_iff.mp (passed m begun before)).symm

/-- A name whose first two substitutes are taken, one as a source name and one as an output name of
an outer scope. -/
example :
    let table : SymbolTable :=
      { inner := [.scalar "in_var" .int]
        outer := [[{ Symbol.scalar "x" .int with targetName := "in_var2" }]] }
    table.substituteFor ["in"] "in" = "in_var3" := by decide

end Retarget
