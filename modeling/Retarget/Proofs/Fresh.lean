import Retarget.Scope.Naming

/-!
# Free names are found

The searches for a free name try at most as many names as can be blocked. The names of a series are
distinct, so one of those tried is free, and it is the one found: a substitute is neither reserved
nor the name of a symbol in scope, and a fresh name is that of no symbol in scope.
-/

namespace Retarget

namespace Naming

variable {blocked : String → Bool} {candidate : Nat → String}

theorem exists_firstFree_eq (tries n : Nat) :
    ∃ m, n ≤ m ∧ firstFree blocked candidate tries n = candidate m := by
  induction tries generalizing n with
  | zero => exact ⟨n, Nat.le_refl n, rfl⟩
  | succ tries ih =>
    rw [firstFree]
    split
    · obtain ⟨m, later, found⟩ := ih (n + 1)
      exact ⟨m, by omega, found⟩
    · exact ⟨n, Nat.le_refl n, rfl⟩

theorem firstFree_free (taken : List String) {tries n : Nat} (few : taken.length ≤ tries)
    (covered : ∀ i, n ≤ i → blocked (candidate i) = true → candidate i ∈ taken)
    (distinct : ∀ i j, n ≤ i → n ≤ j → candidate i = candidate j → i = j) :
    blocked (firstFree blocked candidate tries n) = false := by
  -- Each refused name is struck off the list of those that can be blocked.
  induction tries generalizing taken n with
  | zero =>
    rw [List.length_eq_zero_iff.mp (Nat.le_zero.mp few)] at covered
    rw [Bool.eq_false_iff]
    intro refused
    exact List.not_mem_nil (covered n (Nat.le_refl n) refused)
  | succ tries ih =>
    rw [firstFree]
    split
    next refused =>
      have member := covered n (Nat.le_refl n) refused
      apply ih (taken.erase (candidate n))
      · rw [List.length_erase_of_mem member]
        omega
      · intro i later refusedLater
        have different : candidate i ≠ candidate n := by
          intro same
          have := distinct i n (by omega) (Nat.le_refl n) same
          omega
        exact (List.mem_erase_of_ne different).mpr (covered i (by omega) refusedLater)
      · intro i j iLater jLater same
        exact distinct i j (by omega) (by omega) same
    next free => simpa using free

theorem numbered_injective (base : String) {i j : Nat}
    (same : numbered base i = numbered base j) : i = j := by
  have digits : Nat.toDigits 10 i = Nat.toDigits 10 j := by
    rw [← Nat.toList_repr, ← Nat.toList_repr]
    exact congrArg String.toList ((String.append_right_inj base).mp same)
  calc i = Nat.ofDigitChars 10 (Nat.toDigits 10 i) 0 := Nat.ofDigitChars_ten_toDigits.symm
    _ = Nat.ofDigitChars 10 (Nat.toDigits 10 j) 0 := by rw [digits]
    _ = j := Nat.ofDigitChars_ten_toDigits

theorem substitute_of_lt (name : String) {n : Nat} (later : 1 < n) :
    substitute name n = name ++ "_var" ++ toString n :=
  if_neg (by omega)

theorem substitute_ne_one (name : String) {n : Nat} (later : 1 < n) :
    substitute name n ≠ substitute name 1 := by
  rw [substitute_of_lt name later]
  intro same
  exact Nat.repr_ne_empty (String.append_eq_left_iff.mp same)

theorem substitute_injective (name : String) {i j : Nat} (iPositive : 1 ≤ i) (jPositive : 1 ≤ j)
    (same : substitute name i = substitute name j) : i = j := by
  by_cases iFirst : i = 1
  · by_cases jFirst : j = 1
    · omega
    · subst iFirst
      exact (substitute_ne_one name (by omega) same.symm).elim
  · by_cases jFirst : j = 1
    · subst jFirst
      exact (substitute_ne_one name (by omega) same).elim
    · rw [substitute_of_lt name (by omega), substitute_of_lt name (by omega)] at same
      exact numbered_injective (name ++ "_var") same

end Naming

namespace SymbolTable

variable {table : SymbolTable} {name : String}

def takenNames (table : SymbolTable) : List String :=
  table.symbols.map Symbol.sourceName ++ table.symbols.map Symbol.targetName

theorem length_takenNames (table : SymbolTable) : table.takenNames.length = table.takenBound := by
  simp only [takenNames, takenBound, List.length_append, List.length_map]
  omega

theorem mem_takenNames_of_isTaken (taken : table.isTaken name = true) :
    name ∈ table.takenNames := by
  simp only [isTaken, List.any_eq_true, Bool.or_eq_true, decide_eq_true_eq] at taken
  obtain ⟨symbol, member, rfl | rfl⟩ := taken
  · exact List.mem_append_left _ (List.mem_map_of_mem member)
  · exact List.mem_append_right _ (List.mem_map_of_mem member)

theorem ne_of_isTaken_eq_false (free : table.isTaken name = false) {symbol : Symbol}
    (member : symbol ∈ table.symbols) : symbol.sourceName ≠ name ∧ symbol.targetName ≠ name := by
  simp only [isTaken, List.any_eq_false, Bool.or_eq_true, decide_eq_true_eq, not_or] at free
  exact free symbol member

theorem ne_of_collides_eq_false {reserved : List String}
    (free : table.collides reserved name = false) : name ∉ reserved ∧
      ∀ symbol ∈ table.symbols, symbol.sourceName ≠ name → symbol.targetName ≠ name := by
  simp only [collides, isTargetOfOther, Bool.or_eq_false_iff, decide_eq_false_iff_not,
    List.any_eq_false, Bool.and_eq_true, decide_eq_true_eq, not_and] at free
  refine ⟨free.1, ?_⟩
  intro symbol member different same
  exact free.2 symbol member same different

theorem substituteFor_free (table : SymbolTable) (reserved : List String) (name : String) :
    table.isTaken (table.substituteFor reserved name) = false ∧
      table.substituteFor reserved name ∉ reserved := by
  have free := @Naming.firstFree_free
    (fun candidate => table.isTaken candidate || candidate ∈ reserved) (Naming.substitute name)
    (table.takenNames ++ reserved) (table.takenBound + reserved.length) 1
    (Nat.le_of_eq (by rw [List.length_append, length_takenNames]))
    (by
      intro i _ refused
      rw [Bool.or_eq_true, decide_eq_true_eq] at refused
      rcases refused with taken | member
      · exact List.mem_append_left _ (mem_takenNames_of_isTaken taken)
      · exact List.mem_append_right _ member)
    (fun i j iPositive jPositive same =>
      Naming.substitute_injective name iPositive jPositive same)
  rw [Bool.or_eq_false_iff, decide_eq_false_iff_not] at free
  exact free

theorem freshName_free (table : SymbolTable) (base : String) :
    table.isTaken (table.freshName base) = false := by
  unfold freshName
  generalize (if base = "i" then ["i", "j", "k"] else [base]) = preferred
  dsimp only
  split
  next name found => simpa using List.find?_some found
  next =>
    apply Naming.firstFree_free table.takenNames
    · exact Nat.le_of_eq table.length_takenNames
    · exact fun i _ taken => mem_takenNames_of_isTaken taken
    · exact fun i j _ _ same => Naming.numbered_injective base same

theorem freshName_index (table : SymbolTable) :
    table.freshName "i" ∈ ["i", "j", "k"] ∨ ∃ n, table.freshName "i" = Naming.numbered "i" n := by
  unfold freshName
  dsimp only
  split
  next name found => exact .inl (List.mem_of_find?_eq_some found)
  next =>
    obtain ⟨n, _, found⟩ := Naming.exists_firstFree_eq table.takenBound 2
    exact .inr ⟨n, found⟩

end SymbolTable

theorem Naming.numbered_index_not_reserved (n : Nat) :
    Naming.numbered "i" n ∉ Target.reserved .c := by
  intro member
  -- A number has a digit, and the reserved words have none.
  have lettered : (Target.reserved .c).all (fun word => word.toList.all (!·.isDigit)) = true := by
    decide
  obtain ⟨digit, isIn⟩ := List.exists_mem_of_ne_nil _ (Nat.toDigits_ne_nil (n := n) (b := 10))
  have isDigit : digit.isDigit = true := Nat.isDigit_of_mem_toDigits (by omega) (by omega) isIn
  have written : digit ∈ (Naming.numbered "i" n).toList := by
    simp only [Naming.numbered, String.toList_append, List.mem_append]
    rw [Nat.toString_eq_repr, Nat.toList_repr]
    exact .inr isIn
  have notDigit := List.all_eq_true.mp (List.all_eq_true.mp lettered _ member) digit written
  rw [isDigit] at notDigit
  cases notDigit

theorem SymbolTable.freshName_index_not_reserved (table : SymbolTable) :
    table.freshName "i" ∉ Target.reserved .c := by
  obtain preferred | ⟨n, numbered⟩ := table.freshName_index
  · have letters : ∀ name ∈ ["i", "j", "k"], name ∉ Target.reserved .c := by decide
    exact letters _ preferred
  · rw [numbered]
    exact Naming.numbered_index_not_reserved n

end Retarget
