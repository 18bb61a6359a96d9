import Mathlib.Data.Bool.AllAny
import Mathlib.Data.List.Chain
import Retarget.Proofs.BareText
import Retarget.Proofs.Refusal

/-!
# Values in a bare text

A value is cut into tokens at every character that is no part of a name, except for the point of a
numeral.
-/

namespace Retarget

open List (all_eq_true append_assoc cons_append length_cons mem_cons_self nil_append)

namespace Text

theorem exists_of_inRanges {n : Nat} {ranges : List (Nat × Nat)} (within : inRanges n ranges = true) :
    ∃ range ∈ ranges, range.1 ≤ n ∧ n ≤ range.2 := by
  induction ranges with
  | nil => cases within
  | cons range ranges ih =>
    rw [inRanges] at within
    split at within
    · cases within
    next above =>
      rcases (Bool.or_eq_true _ _).mp within with below | later
      · exact ⟨range, mem_cons_self, Nat.le_of_not_lt above, of_decide_eq_true below⟩
      · obtain ⟨found, member, inside⟩ := ih later
        exact ⟨found, List.mem_cons_of_mem _ member, inside⟩

theorem inRanges_of_mem {n : Nat} {ranges : List (Nat × Nat)} {range : Nat × Nat}
    (ordered : ranges.Pairwise fun low high => low.1 ≤ high.1) (member : range ∈ ranges)
    (above : range.1 ≤ n) (below : n ≤ range.2) : inRanges n ranges = true := by
  induction ranges with
  | nil => cases member
  | cons first ranges ih =>
    obtain ⟨least, ordered⟩ := List.pairwise_cons.mp ordered
    rcases List.mem_cons.mp member with rfl | member
    · simp [inRanges, Nat.not_lt.mpr above, below]
    · have notBefore : ¬n < first.1 := by
        have := least range member
        omega
      simp [inRanges, notBefore, ih ordered member]

theorem wordRanges_ordered : wordRanges.Pairwise fun low high => low.1 ≤ high.1 := by
  have : IsTrans (Nat × Nat) fun low high => low.1 ≤ high.1 := ⟨fun _ _ _ => Nat.le_trans⟩
  have chain : wordRanges.IsChain fun low high => low.1 ≤ high.1 := by decide +kernel
  exact List.isChain_iff_pairwise.mp chain

theorem digitRanges_covered : (digitRanges.all fun range => wordRanges.any fun wider =>
    Nat.ble wider.1 range.1 && Nat.ble range.2 wider.2) = true := by decide +kernel

theorem isWordChar_of_isDecimalDigit {c : Char} (digit : isDecimalDigit c = true) :
    isWordChar c = true := by
  by_cases ascii : c.toNat < 0x80
  · rw [isDecimalDigit, if_pos ascii] at digit
    rw [isWordChar, if_pos ascii]
    exact Bool.or_eq_true_iff.mpr (.inl (Bool.or_eq_true_iff.mpr (.inr digit)))
  · rw [isDecimalDigit, if_neg ascii] at digit
    rw [isWordChar, if_neg ascii]
    obtain ⟨range, listed, above, below⟩ := exists_of_inRanges digit
    have covered := all_eq_true.mp digitRanges_covered range listed
    obtain ⟨wider, member, around⟩ := List.any_eq_true.mp covered
    obtain ⟨low, high⟩ := (Bool.and_eq_true _ _).mp around
    exact inRanges_of_mem wordRanges_ordered member
      (Nat.le_trans (Nat.le_of_ble_eq_true low) above)
      (Nat.le_trans below (Nat.le_of_ble_eq_true high))

theorem takeWhile_run {p : Char → Bool} {run tail : List Char} (all : ∀ c ∈ run, p c = true)
    (stops : tail.head?.any p = false) : (run ++ tail).takeWhile p = run := by
  rw [List.takeWhile_append_of_pos all]
  cases tail with
  | nil => simp
  | cons x tail => simp_all

theorem takeWhile_append_cons {p : Char → Bool} {s : Char} (stops : p s = false)
    (front rest : List Char) : (front ++ s :: rest).takeWhile p = front.takeWhile p := by
  induction front with
  | nil => simp [stops]
  | cons c front ih => cases holds : p c <;> simp [holds, ih]

end Text

namespace Degraded

open Text

variable {c s : Char} {front rest : List Char}

theorem isSuffix_spec (known : isSuffix c = true) :
    isWordChar c = true ∧ isDecimalDigit c = false ∧ c.isDigit = false ∧ c ≠ '.' := by
  have letters : ∀ c ∈ ['l', 'L', 'f', 'F', 'd', 'D'], isWordChar c = true ∧
      isDecimalDigit c = false ∧ c.isDigit = false ∧ c ≠ '.' :=
    List.all_iff_forall_prop.mp (by decide)
  exact letters c (of_decide_eq_true known)

/-! ## Where tokens end -/

/-- A character that ends the token before it: no part of a name, and no point behind a digit. -/
structure Separates (front : List Char) (s : Char) : Prop where
  ends : isNameChar s = false
  noPoint : s = '.' → front.getLast?.any isDecimalDigit = false

namespace Separates

theorem tail (separates : Separates (c :: front) s) : Separates front s where
  ends := separates.ends
  noPoint := fun isPoint => by
    have last := separates.noPoint isPoint
    cases front with
    | nil => rfl
    | cons next front => rwa [List.getLast?_cons_cons] at last

theorem noWord (separates : Separates front s) : isWordChar s = false :=
  (Bool.or_eq_false_iff.mp separates.ends).1

theorem noDigit (separates : Separates front s) : isDecimalDigit s = false :=
  Bool.eq_false_iff.mpr fun digit =>
    absurd (isWordChar_of_isDecimalDigit digit) (by simp [separates.noWord])

theorem noSuffix (separates : Separates front s) : isSuffix s = false :=
  Bool.eq_false_iff.mpr fun suffix => absurd (isSuffix_spec suffix).1 (by simp [separates.noWord])

theorem noStart (separates : Separates front s) : isNameStart s = false :=
  Bool.eq_false_iff.mpr fun begins =>
    absurd (isNameChar_of_isNameStart begins) (by simp [separates.ends])

end Separates

theorem numeralLength_run {run tail : List Char} (digits : ∀ d ∈ run, isDecimalDigit d = true)
    (stops : tail.head?.any isDecimalDigit = false) : numeralLength (run ++ tail) = run.length +
      if tail.head? = some '.' then 1 + (tail.tail.takeWhile isDecimalDigit).length else 0 := by
  unfold numeralLength
  simp only [takeWhile_run digits stops, List.drop_left]
  cases tail with
  | nil => simp
  | cons x tail =>
    by_cases isPoint : x = '.'
    · subst isPoint
      simp [Nat.add_assoc]
    · simp [isPoint]

theorem numeralLength_append (separates : Separates front s) (rest : List Char)
    (digit : front.head?.any isDecimalDigit = true) :
    numeralLength (front ++ s :: rest) = numeralLength front ∧
      numeralLength front ≤ front.length := by
  have noDigit := separates.noDigit
  obtain ⟨run, tail, digits, stops, rfl⟩ : ∃ run tail, (∀ d ∈ run, isDecimalDigit d = true) ∧
      tail.head?.any isDecimalDigit = false ∧ front = run ++ tail := by
    refine ⟨_, _, fun d => List.mem_takeWhile_imp, ?_, List.takeWhile_append_dropWhile.symm⟩
    have := List.head?_dropWhile_not isDecimalDigit front
    cases left : (front.dropWhile isDecimalDigit).head? with
    | none => rfl
    | some d => simpa [left] using this
  rw [append_assoc, numeralLength_run digits stops]
  cases tail with
  | nil =>
    -- The front is a run of digits, so that the character is no point.
    have noPoint : s ≠ '.' := by
      intro isPoint
      have last := separates.noPoint isPoint
      rw [List.append_nil] at last digit
      cases run with
      | nil => cases digit
      | cons d run =>
        rw [List.getLast?_eq_some_getLast (by simp), Option.any_some,
          digits _ (List.getLast_mem _)] at last
        cases last
    rw [nil_append, numeralLength_run digits (by simp [noDigit])]
    simp [noPoint]
  | cons x tail =>
    rw [cons_append, numeralLength_run digits (by simpa using stops)]
    have := (List.takeWhile_sublist isDecimalDigit (l := tail)).length_le
    simp only [List.head?_cons, List.tail_cons, takeWhile_append_cons noDigit,
      List.length_append, length_cons]
    refine ⟨rfl, ?_⟩
    by_cases isPoint : x = '.'
    · simp only [isPoint, if_true]
      omega
    · simp [isPoint]

theorem suffixedLength_append (separates : Separates front s) (rest : List Char) :
    suffixedLength (front ++ s :: rest) = suffixedLength front ∧
      (suffixedLength front ≠ 0 → suffixedLength front < front.length) := by
  have head : (front ++ s :: rest).head?.any isDecimalDigit = front.head?.any isDecimalDigit := by
    cases front with
    | nil => simp [separates.noDigit]
    | cons c front => rfl
  unfold suffixedLength
  rw [head]
  split
  next digit =>
    obtain ⟨same, short⟩ := numeralLength_append separates rest digit
    dsimp only
    rw [same, List.drop_append_of_le_length short]
    cases left : front.drop (numeralLength front) with
    | nil => simp [separates.noSuffix]
    | cons suffix others =>
      have inside : numeralLength front < front.length := by
        have := congrArg List.length left
        rw [List.length_drop, length_cons] at this
        omega
      have ends : atWordEnd (others ++ s :: rest) = atWordEnd others := by
        cases others with
        | nil => simp [atWordEnd, separates.noWord]
        | cons _ _ => rfl
      simp only [cons_append, ends]
      refine ⟨trivial, fun found => ?_⟩
      split at found
      next suffixed => rwa [if_pos suffixed]
      next => exact absurd rfl found
  next => exact ⟨rfl, fun found => absurd rfl found⟩

theorem tokensFrom_number {inWord : Bool} {n : Nat} {suffix : Char} {others : List Char}
    (found : (if inWord then 0 else suffixedLength (c :: rest)) = n + 1)
    (left : (c :: rest).drop (n + 1) = suffix :: others) : tokensFrom 0 inWord (c :: rest) =
      .number ((c :: rest).take (n + 1)) suffix :: tokensFrom (n + 1) true rest := by
  rw [tokensFrom]
  simp only [found, left]

theorem tokensFrom_plain {inWord : Bool}
    (none : (if inWord then 0 else suffixedLength (c :: rest)) = 0) :
    tokensFrom 0 inWord (c :: rest) =
      if isNameStart c then
        .word (c :: rest.takeWhile isNameChar) ::
          tokensFrom (rest.takeWhile isNameChar).length true rest
      else .other c :: tokensFrom 0 (isWordChar c) rest := by
  rw [tokensFrom]
  simp only [none]

/-- A character that ends the token before it is a token of its own, and the tokens before and after
it are those of two values. -/
theorem tokensFrom_append {skip : Nat} {inWord : Bool} (separates : Separates front s)
    (inside : skip ≤ front.length) (rest : List Char) :
    tokensFrom skip inWord (front ++ s :: rest) =
      tokensFrom skip inWord front ++ .other s :: tokens rest := by
  induction front generalizing skip inWord with
  | nil =>
    cases Nat.le_zero.mp inside
    have plain : (if inWord then 0 else suffixedLength (s :: rest)) = 0 := by
      simp [suffixedLength, separates.noDigit]
    rw [nil_append, tokensFrom_plain plain, separates.noStart, separates.noWord]
    rfl
  | cons c front ih =>
    have later := fun skip inside => @ih skip true separates.tail inside
    cases skip with
    | succ skip =>
      rw [cons_append]
      exact ih separates.tail (Nat.le_of_succ_le_succ inside)
    | zero =>
      obtain ⟨same, short⟩ := suffixedLength_append separates rest
      generalize found : (if inWord then 0 else suffixedLength (c :: front)) = n
      have foundToo : (if inWord then 0 else suffixedLength (c :: (front ++ s :: rest))) = n := by
        rw [← cons_append, same, found]
      cases n with
      | zero =>
        rw [cons_append, tokensFrom_plain found, tokensFrom_plain foundToo,
          takeWhile_append_cons separates.ends]
        split
        · rw [later _ (List.takeWhile_sublist _).length_le, cons_append]
        · rw [ih separates.tail (Nat.zero_le _), cons_append]
      | succ n =>
        have short : n + 1 < (c :: front).length := by
          cases inWord with
          | true => cases found
          | false =>
            have found : suffixedLength (c :: front) = n + 1 := by simpa using found
            rw [← found]
            exact short (by omega)
        obtain ⟨suffix, others, left⟩ := List.exists_cons_of_length_pos
          (show 0 < ((c :: front).drop (n + 1)).length by rw [List.length_drop]; omega)
        have leftToo : (c :: (front ++ s :: rest)).drop (n + 1) =
            suffix :: (others ++ s :: rest) := by
          rw [← cons_append, List.drop_append_of_le_length (by omega), left, cons_append]
        have taken : (c :: (front ++ s :: rest)).take (n + 1) = (c :: front).take (n + 1) := by
          rw [← cons_append, List.take_append_of_le_length (by omega)]
        rw [cons_append, tokensFrom_number found left, tokensFrom_number foundToo leftToo,
          later _ (Nat.le_of_lt_succ short), taken, cons_append]

theorem tokens_append (separates : Separates front s) (rest : List Char) :
    tokens (front ++ s :: rest) = tokens front ++ .other s :: tokens rest :=
  tokensFrom_append separates (Nat.zero_le _) rest

theorem isDecimalDigit_of_isNameStart (begins : isNameStart c = true) :
    isDecimalDigit c = false := by
  simp only [isNameStart, Bool.or_eq_true, decide_eq_true_eq] at begins
  rcases begins with (letter | rfl) | rfl
  · have range := toNat_of_isAlpha letter
    rw [isDecimalDigit, if_pos (by omega)]
    have high : ¬c.val ≤ '9'.val := fun low => by
      have : c.toNat ≤ 57 := low
      omega
    exact Bool.and_eq_false_iff.mpr (.inr (decide_eq_false high))
  · decide
  · decide

theorem tokens_name {name : List Char} (isName : isNameStart c = true)
    (letters : name.all isNameChar = true) (ended : rest.head?.any isNameChar = false) :
    tokens (c :: (name ++ rest)) = .word (c :: name) :: tokensFrom name.length true (name ++ rest) := by
  have plain : (if false = true then 0 else suffixedLength (c :: (name ++ rest))) = 0 := by
    simp [suffixedLength, isDecimalDigit_of_isNameStart isName]
  rw [tokens, tokensFrom_plain plain, if_pos isName,
    takeWhile_run (all_eq_true.mp letters) ended]

/-! ## Strings in a degraded line -/

/-- A name in a value: characters of names that go on neither way, the first of which is no digit. -/
structure StandsIn (before name rest : List Char) : Prop where
  begins : name.head?.any (fun c => !isDecimalDigit c) = true
  letters : name.all isNameChar = true
  apart : before.getLast?.any isNameChar = false
  ended : rest.head?.any isNameChar = false

/-- What stands before a name does not make it the suffix of a numeral with a point. -/
def EndsNoNumeral (before : List Char) : Prop :=
  ∀ digit, isDecimalDigit digit = true → ¬[digit, '.'] <:+ before

theorem word_mem_tokens {before name : List Char} (stands : StandsIn before name rest)
    (begins : name.head?.any isNameStart = true) (noNumeral : EndsNoNumeral before) :
    .word name ∈ tokens (before ++ name ++ rest) := by
  obtain ⟨others, read⟩ : ∃ others, tokens (name ++ rest) = .word name :: others := by
    cases name with
    | nil => cases begins
    | cons c name =>
      obtain ⟨-, letters⟩ := (Bool.and_eq_true _ _).mp (List.all_cons ▸ stands.letters)
      exact ⟨_, tokens_name begins letters stands.ended⟩
  rw [append_assoc]
  rcases List.eq_nil_or_concat before with rfl | ⟨front, s, rfl⟩
  · rw [nil_append, read]
    exact mem_cons_self
  · have separates : Separates front s := by
      refine ⟨by simpa using stands.apart, ?_⟩
      rintro rfl
      rcases List.eq_nil_or_concat front with rfl | ⟨first, digit, rfl⟩
      · rfl
      · cases isDigit : isDecimalDigit digit with
        | false => simpa using isDigit
        | true => exact absurd ⟨first, by simp⟩ (noNumeral digit isDigit)
    rw [List.concat_eq_append, append_assoc, List.singleton_append, tokens_append separates,
      read]
    simp

/-- No name of a value is that of a string variable, as far as the names are seen. -/
def ComputesNoString (table : SymbolTable) (value : String) : Prop :=
  ∀ before name rest, value.toList = before ++ name ++ rest → StandsIn before name rest →
    name.head?.any isNameStart = true → EndsNoNumeral before →
    table.isStringScalar (String.ofList name) = false

variable {cx after : Context} {table : SymbolTable} {text line value : String}

theorem computesNoString_of_names (noString : (names value).any table.isStringScalar = false) :
    ComputesNoString table value := by
  intro before name rest whole stands begins noNumeral
  have member := word_mem_tokens stands begins noNumeral
  rw [← whole] at member
  have named : String.ofList name ∈ names value := List.mem_filterMap.mpr ⟨_, member, rfl⟩
  simpa using List.any_eq_false.mp noString _ named

theorem isQuoted_eq_false {spell : String → String} {written : String}
    (found : respelled? spell value = some written)
    (noLiteral : isStringLiteral (trimChars value.toList) = false) : isQuoted value = false := by
  refine Bool.eq_false_iff.mpr fun quoted => ?_
  have head : (trimChars value.toList).head? = some '"' := by
    rw [head?_trimChars, ← isPrefixOf_singleton]
    simpa [isQuoted, beginsWith, trimStart] using quoted
  rcases respelled?_cases found with ⟨-, literal | literal⟩ | ⟨-, arithmetic, -⟩
  · exact absurd literal (by simp [noLiteral])
  · rw [(ends_of_isCharLiteral literal).1] at head
    exact absurd head (by decide)
  · exact absurd (arithmetic _ (List.mem_of_head? head)) (by decide)

theorem written_of_cDeclaration {type : ValueType} {name : String}
    (ends : (cDeclaration type name (some value)).run cx = .ok (some line, after)) :
    copiesString cx.symbols type value = false ∧
      ∃ written, respelled? (spellInC cx.symbols) value = some written := by
  obtain ⟨table, _, begun, ends⟩ := Render.bind_eq_ok.mp ends
  cases begun
  split at ends
  · cases ends
  next copies =>
    obtain ⟨typeWritten, between, -, ends⟩ := Render.bind_eq_ok.mp ends
    refine ⟨by simpa using copies, ?_⟩
    cases typeWritten with
    | error refusal => cases ends
    | ok typeName =>
      dsimp only at ends
      split at ends
      · cases ends
      next written found => exact ⟨written, found⟩

/-- A line made from a declaration or an assignment computes with no string: unless the value is one
whole literal, the variable is no string, and neither is any name in the value that begins with a
letter of ASCII, an underscore or a dollar sign and does not stand behind a numeral's point. -/
theorem cLine_computes_no_string (ends : (cLine text).run cx = .ok (some line, after)) :
    (∀ type name value, shape? text = some (.declaration type name (some value)) →
      isStringLiteral (trimChars value.toList) = false →
      type ≠ .string ∧ ComputesNoString cx.symbols value) ∧
    ∀ name op value, shape? text = some (.assignment name op value) →
      cx.symbols.isStringScalar name = false ∧
        (isStringLiteral (trimChars value.toList) = false → ComputesNoString cx.symbols value) := by
  unfold cLine at ends
  refine ⟨fun type name value shaped noLiteral => ?_, fun name op value shaped => ?_⟩
  · rw [shaped] at ends
    obtain ⟨copies, written, found⟩ := written_of_cDeclaration ends
    have bare := isQuoted_eq_false found noLiteral
    simp only [copiesString, mentionsString, bare, Bool.not_false, Bool.and_true, Bool.true_and,
      Bool.or_eq_false_iff, decide_eq_false_iff_not] at copies
    exact ⟨copies.1, computesNoString_of_names copies.2⟩
  · rw [shaped] at ends
    obtain ⟨table, _, begun, ends⟩ := Render.bind_eq_ok.mp ends
    cases begun
    split at ends
    · cases ends
    next free =>
      simp only [Bool.or_eq_true, not_or, Bool.not_eq_true] at free
      refine ⟨free.1, fun noLiteral => ?_⟩
      have written : ∃ written, respelled? (spellInC cx.symbols) value = some written := by
        cases found : respelled? (spellInC cx.symbols) value with
        | none =>
          rw [found] at ends
          cases ends
        | some written => exact ⟨written, rfl⟩
      obtain ⟨written, found⟩ := written
      apply computesNoString_of_names
      simpa [mentionsString, isQuoted_eq_false found noLiteral] using free.2

/-- Two numbers and two strings, of which one begins with a letter outside ASCII and one is called
like a suffix. -/
def Sample.mixed : SymbolTable :=
  { inner := [Symbol.scalar "n" .int, Symbol.scalar "m" .long, Symbol.scalar "é" .string,
      Symbol.scalar "d" .string] }

/-- The line of a sum of numbers, in which none of the strings is seen. -/
theorem cLine_computes_no_string_sum :
    ∃ line after, (cLine "n = n + m;").run { target := .c, symbols := Sample.mixed } =
        .ok (line, after) ∧ line = some "n = n + m;" ∧
      Sample.mixed.isStringScalar "n" = false ∧ ComputesNoString Sample.mixed "n + m" := by
  have ended : ∃ line after, (cLine "n = n + m;").run { target := .c, symbols := Sample.mixed } =
      .ok (line, after) ∧ line = some "n = n + m;" := by decide +kernel
  obtain ⟨_, after, ends, rfl⟩ := ended
  obtain ⟨noString, computes⟩ :=
    (cLine_computes_no_string ends).2 "n" "=" "n + m" (by decide +kernel)
  exact ⟨_, after, ends, rfl, noString, computes (by decide +kernel)⟩

/-- The line of a sum with a string whose name begins with a letter outside ASCII, and one with a
string whose name is taken for a suffix. -/
theorem cLine_computes_missed_strings :
    (∃ line after, (cLine "n = n + é;").run { target := .c, symbols := Sample.mixed } =
        .ok (line, after) ∧ line = some "n = n + é;") ∧
      shape? "n = n + é;" = some (.assignment "n" "=" "n + é") ∧
      "n + é".toList = "n + ".toList ++ "é".toList ++ [] ∧
      StandsIn "n + ".toList "é".toList [] ∧ Sample.mixed.isStringScalar "é" = true ∧
    (∃ line after, (cLine "n = 1.d;").run { target := .c, symbols := Sample.mixed } =
        .ok (line, after) ∧ line = some "n = 1.;") ∧
      shape? "n = 1.d;" = some (.assignment "n" "=" "1.d") ∧
      "1.d".toList = "1.".toList ++ "d".toList ++ [] ∧
      StandsIn "1.".toList "d".toList [] ∧ Sample.mixed.isStringScalar "d" = true := by
  refine ⟨by decide +kernel, by decide +kernel, rfl, ⟨?_, ?_, ?_, ?_⟩, by decide, ?_⟩
  iterate 4 decide +kernel
  exact ⟨by decide +kernel, by decide +kernel, rfl, ⟨by decide, by decide, by decide, by decide⟩,
    by decide⟩

/-! ## Arithmetic in a value -/

def isWholeName (name : List Char) : Bool :=
  name.head?.any isNameStart && name.all isNameChar

/-- Digits, and perhaps a point with more digits. -/
structure IsNumeral (whole fraction : List Char) : Prop where
  filled : whole ≠ []
  digits : whole.all Char.isDigit = true
  pointed : fraction = [] ∨ ∃ others, fraction = '.' :: others ∧ others.all Char.isDigit = true

/-- Arithmetic on numbers and names, with blanks around its operators and inside its brackets. -/
inductive Arithmetic : List Char → Prop where
  | number {whole fraction : List Char} (numeral : IsNumeral whole fraction) :
      Arithmetic (whole ++ fraction)
  | suffixed {whole fraction : List Char} {suffix : Char} (numeral : IsNumeral whole fraction)
      (known : isSuffix suffix = true) : Arithmetic (whole ++ fraction ++ [suffix])
  | name {name : List Char} (isName : isWholeName name = true) : Arithmetic name
  | bracketed {before inner after : List Char} (blank : before.all isBlank = true)
      (blankToo : after.all isBlank = true) (arithmetic : Arithmetic inner) :
      Arithmetic ('(' :: before ++ inner ++ (after ++ [')']))
  | binary {left before after right : List Char} {op : Char} (blank : before.all isBlank = true)
      (operator : op ∈ ['+', '-', '*', '%']) (blankToo : after.all isBlank = true)
      (arithmetic : Arithmetic left) (arithmeticToo : Arithmetic right) :
      Arithmetic (left ++ (before ++ op :: after) ++ right)

def spelledChars (spell : String → String) (cs : List Char) : List Char :=
  (tokens cs).flatMap fun token => (token.spelled spell).toList

variable {spell : String → String} {marks : List Char}

def AreMarks (marks : List Char) : Prop :=
  ∀ mark ∈ marks, isNameChar mark = false ∧ mark ≠ '.'

def blankPoints : List Nat :=
  List.range' 0x9 5 ++ List.range' 0x2000 11 ++
    [0x20, 0x85, 0xA0, 0x1680, 0x2028, 0x2029, 0x202F, 0x205F, 0x3000]

theorem areMarks_blanks (blank : marks.all isBlank = true) : AreMarks marks := by
  intro mark member
  have points : ∀ n ∈ blankPoints, isNameChar (Char.ofNat n) = false ∧ Char.ofNat n ≠ '.' := by
    decide +kernel
  have isBlank := List.all_eq_true.mp blank mark member
  have point : mark.toNat ∈ blankPoints := by
    simp only [Text.isBlank, Bool.or_eq_true, Bool.and_eq_true, decide_eq_true_eq, beq_iff_eq]
      at isBlank
    simp only [blankPoints, List.mem_append, List.mem_range'_1, List.mem_cons, List.not_mem_nil]
    omega
  simpa using points _ point

theorem AreMarks.append {more : List Char} (areMarks : AreMarks marks) (areMarksToo : AreMarks more) :
    AreMarks (marks ++ more) :=
  fun mark member => (List.mem_append.mp member).elim (areMarks mark) (areMarksToo mark)

theorem spelledChars_append (separates : Separates front s) (rest : List Char) :
    spelledChars spell (front ++ s :: rest) =
      spelledChars spell front ++ s :: spelledChars spell rest := by
  simp [spelledChars, tokens_append separates, Token.spelled]

theorem spelledChars_marks (areMarks : AreMarks marks) (rest : List Char) :
    spelledChars spell (marks ++ rest) = marks ++ spelledChars spell rest := by
  induction marks with
  | nil => rfl
  | cons mark marks ih =>
    have separates : Separates [] mark := ⟨(areMarks mark List.mem_cons_self).1, fun _ => rfl⟩
    have later := ih fun other member => areMarks other (List.mem_cons_of_mem _ member)
    rw [List.cons_append, List.cons_append, ← later]
    exact spelledChars_append separates (marks ++ rest)

theorem spelledChars_between (areMarks : AreMarks marks) (filled : marks ≠ []) (rest : List Char) :
    spelledChars spell (front ++ marks ++ rest) =
      spelledChars spell front ++ marks ++ spelledChars spell rest := by
  cases marks with
  | nil => exact absurd rfl filled
  | cons mark marks =>
    obtain ⟨noName, noPoint⟩ := areMarks mark List.mem_cons_self
    have later := @spelledChars_marks spell marks
      (fun other member => areMarks other (List.mem_cons_of_mem _ member)) rest
    rw [List.append_assoc, List.cons_append,
      spelledChars_append ⟨noName, fun isPoint => absurd isPoint noPoint⟩, later]
    simp

theorem tokensFrom_of_length_le {skip : Nat} {inWord : Bool} {cs : List Char}
    (long : cs.length ≤ skip) : tokensFrom skip inWord cs = [] := by
  induction cs generalizing skip with
  | nil => rfl
  | cons c cs ih =>
    cases skip with
    | zero => cases long
    | succ skip =>
      exact ih (Nat.le_of_succ_le_succ long)

theorem tokensFrom_signs {inWord : Bool} {cs : List Char}
    (plain : ∀ c ∈ cs, isNameStart c = false ∧ isSuffix c = false) :
    tokensFrom 0 inWord cs = cs.map .other := by
  induction cs generalizing inWord with
  | nil => rfl
  | cons c cs ih =>
    have none : suffixedLength (c :: cs) = 0 := by
      unfold suffixedLength
      split
      · dsimp only
        split
        next suffix _ left =>
          have inside : suffix ∈ c :: cs := List.mem_of_mem_drop (left ▸ List.mem_cons_self)
          simp [(plain suffix inside).2]
        next => rfl
      · rfl
    rw [tokensFrom_plain (by simp [none]), (plain c List.mem_cons_self).1,
      ih fun other member => plain other (List.mem_cons_of_mem c member)]
    rfl

namespace IsNumeral

variable {whole fraction : List Char}

theorem plain (numeral : IsNumeral whole fraction) :
    ∀ c ∈ whole ++ fraction, isNameStart c = false ∧ isSuffix c = false := by
  have noLetter : ∀ c : Char, c.isDigit = true → isNameStart c = false ∧ isSuffix c = false := by
    intro c digit
    have isDigit := isDecimalDigit_of_isDigit digit
    refine ⟨Bool.eq_false_iff.mpr fun begins => ?_, Bool.eq_false_iff.mpr fun suffix => ?_⟩
    · simp [isDecimalDigit_of_isNameStart begins] at isDigit
    · simp [(isSuffix_spec suffix).2.2.1] at digit
  intro c member
  rcases List.mem_append.mp member with member | member
  · exact noLetter c (List.all_eq_true.mp numeral.digits c member)
  · rcases numeral.pointed with rfl | ⟨others, rfl, digitsToo⟩
    · cases member
    · rcases List.mem_cons.mp member with rfl | member
      · decide
      · exact noLetter c (List.all_eq_true.mp digitsToo c member)

theorem spelledChars_eq (numeral : IsNumeral whole fraction) :
    spelledChars spell (whole ++ fraction) = whole ++ fraction := by
  rw [spelledChars, tokens, tokensFrom_signs numeral.plain]
  generalize whole ++ fraction = cs
  induction cs with
  | nil => rfl
  | cons c cs ih => simpa [Token.spelled] using ih

theorem spelledChars_suffixed (numeral : IsNumeral whole fraction) {suffix : Char}
    (known : isSuffix suffix = true) :
    spelledChars spell (whole ++ fraction ++ [suffix]) = whole ++ fraction := by
  obtain ⟨filled, digits, pointed⟩ := numeral
  have decimal : ∀ cs : List Char, cs.all Char.isDigit = true → ∀ d ∈ cs, isDecimalDigit d = true :=
    fun cs all d member => isDecimalDigit_of_isDigit (List.all_eq_true.mp all d member)
  have noDigit : isDecimalDigit suffix = false ∧ suffix ≠ '.' :=
    ⟨(isSuffix_spec known).2.1, (isSuffix_spec known).2.2.2⟩
  have length : numeralLength (whole ++ fraction ++ [suffix]) = (whole ++ fraction).length := by
    rcases pointed with rfl | ⟨others, rfl, digitsToo⟩
    · rw [List.append_nil, numeralLength_run (decimal whole digits) (by simp [noDigit.1])]
      simp [noDigit.2]
    · rw [List.append_assoc, numeralLength_run (decimal whole digits) (by simp; decide)]
      have run : (others ++ [suffix]).takeWhile isDecimalDigit = others :=
        takeWhile_run (decimal others digitsToo) (by simp [noDigit.1])
      simp [run]
      omega
  obtain ⟨d, more, rfl⟩ := List.exists_cons_of_ne_nil filled
  have left : (d :: (more ++ fraction ++ [suffix])).drop ((more ++ fraction).length + 1) =
      [suffix] := by
    rw [List.drop_succ_cons, List.drop_left]
  have found : suffixedLength (d :: (more ++ fraction ++ [suffix])) =
      (more ++ fraction).length + 1 := by
    have head : isDecimalDigit d = true := decimal _ digits d List.mem_cons_self
    simp only [List.cons_append, List.length_cons] at length
    unfold suffixedLength
    simp only [List.head?_cons, Option.any_some, head, if_true, length, left]
    simp [known, atWordEnd]
  have taken : (d :: (more ++ fraction ++ [suffix])).take ((more ++ fraction).length + 1) =
      d :: (more ++ fraction) := by
    rw [List.take_succ_cons, List.take_left]
  have ended : tokensFrom ((more ++ fraction).length + 1) true (more ++ fraction ++ [suffix]) = [] :=
    tokensFrom_of_length_le (by simp only [List.length_append, List.length_singleton]; omega)
  rw [spelledChars, tokens, List.cons_append, List.cons_append,
    tokensFrom_number (by simpa using found) left, taken, ended]
  simp [Token.spelled]

end IsNumeral

theorem spelledChars_name {name : List Char} (isName : isWholeName name = true) :
    spelledChars spell name = (spell (String.ofList name)).toList := by
  obtain ⟨begins, letters⟩ := (Bool.and_eq_true _ _).mp isName
  cases name with
  | nil => cases begins
  | cons c name =>
    obtain ⟨-, letters⟩ := (Bool.and_eq_true _ _).mp (List.all_cons ▸ letters)
    have read := @tokens_name c [] name begins letters rfl
    rw [List.append_nil, tokensFrom_of_length_le (Nat.le_refl _)] at read
    rw [spelledChars, read]
    simp [Token.spelled]

theorem Arithmetic.spelled {cs : List Char} (arithmetic : Arithmetic cs)
    (names : ∀ name, isWholeName name = true →
      isWholeName (spell (String.ofList name)).toList = true) :
    Arithmetic (spelledChars spell cs) := by
  have brackets : AreMarks ['('] ∧ AreMarks [')'] := by
    constructor <;> (intro mark member; cases List.mem_singleton.mp member; decide)
  induction arithmetic with
  | number numeral =>
    rw [numeral.spelledChars_eq]
    exact .number numeral
  | suffixed numeral known =>
    rw [numeral.spelledChars_suffixed known]
    exact .number numeral
  | name isName =>
    rw [spelledChars_name isName]
    exact .name (names _ isName)
  | bracketed blank blankToo _ ih =>
    rw [← List.append_nil (_ ++ (_ ++ [')'])),
      spelledChars_between ((areMarks_blanks blankToo).append brackets.2) (by simp), List.append_assoc,
      ← List.singleton_append, List.append_assoc, ← List.append_assoc ['('],
      spelledChars_marks (brackets.1.append (areMarks_blanks blank))]
    simpa [spelledChars, tokens, tokensFrom] using ih.bracketed blank blankToo
  | @binary left before after right op blank operator blankToo _ _ ih ihToo =>
    have marks : AreMarks (before ++ op :: after) := by
      have signs : ∀ op ∈ ['+', '-', '*', '%'], isNameChar op = false ∧ op ≠ '.' :=
        List.all_iff_forall_prop.mp (by decide)
      rw [← List.singleton_append]
      refine (areMarks_blanks blank).append (.append ?_ (areMarks_blanks blankToo))
      intro mark member
      exact List.mem_singleton.mp member ▸ signs op operator
    rw [spelledChars_between marks (by simp)]
    exact ih.binary blank operator blankToo ihToo

theorem isArithmeticChar_of_isNameChar (letter : isNameChar c = true) :
    isArithmeticChar c = true := by
  simp only [isNameChar, Bool.or_eq_true, decide_eq_true_eq] at letter
  rcases letter with word | rfl
  · simp [isArithmeticChar, word]
  · decide

theorem Arithmetic.allowed {cs : List Char} (arithmetic : Arithmetic cs) :
    cs ≠ [] ∧ ∀ c ∈ cs, isArithmeticChar c = true := by
  have sign : ∀ c ∈ ['.', '(', ')', '+', '-', '*', '%'], isArithmeticChar c = true :=
    List.all_iff_forall_prop.mp (by decide)
  have blanks : ∀ cs : List Char, cs.all isBlank = true → ∀ c ∈ cs, isArithmeticChar c = true := by
    intro cs blank c member
    simp [isArithmeticChar, List.all_eq_true.mp blank c member]
  have digits : ∀ cs : List Char, cs.all Char.isDigit = true →
      ∀ c ∈ cs, isArithmeticChar c = true := by
    intro cs all c member
    have digit := isDecimalDigit_of_isDigit (List.all_eq_true.mp all c member)
    simp [isArithmeticChar, isWordChar_of_isDecimalDigit digit]
  have numerals : ∀ whole fraction : List Char, IsNumeral whole fraction →
      ∀ c ∈ whole ++ fraction, isArithmeticChar c = true := by
    rintro whole _ ⟨-, all, rfl | ⟨others, rfl, allToo⟩⟩
    · rw [List.append_nil]
      exact digits whole all
    · rw [List.forall_mem_append, List.forall_mem_cons]
      exact ⟨digits whole all, sign _ (by simp), digits others allToo⟩
  induction arithmetic with
  | number numeral => exact ⟨by simp [numeral.filled], numerals _ _ numeral⟩
  | suffixed numeral known =>
    refine ⟨by simp, List.forall_mem_append.mpr ⟨numerals _ _ numeral, ?_⟩⟩
    exact List.forall_mem_singleton.mpr (by simp [isArithmeticChar, (isSuffix_spec known).1])
  | @name name isName =>
    obtain ⟨begins, letters⟩ := (Bool.and_eq_true _ _).mp isName
    refine ⟨?_, fun c member =>
      isArithmeticChar_of_isNameChar (List.all_eq_true.mp letters c member)⟩
    rintro rfl
    cases begins
  | bracketed blank blankToo _ ih =>
    simp only [List.cons_append, List.forall_mem_cons, List.forall_mem_append]
    exact ⟨by simp, sign _ (by simp), ⟨blanks _ blank, ih.2⟩, blanks _ blankToo, sign _ (by simp),
      nofun⟩
  | binary blank operator blankToo _ _ ih ihToo =>
    simp only [List.forall_mem_cons, List.forall_mem_append]
    exact ⟨by simp, ⟨ih.2, blanks _ blank, sign _ (List.mem_of_mem_drop (i := 3) operator),
      blanks _ blankToo⟩, ihToo.2⟩

/-- Which values are written, and how: a literal as it stands, and any other value if it has the
characters of arithmetic only. Arithmetic is among them, and stays arithmetic. -/
theorem respelled_arithmetic (spell : String → String)
    (names : ∀ name, isWholeName name = true →
      isWholeName (spell (String.ofList name)).toList = true) (value : String) :
    let cs := trimChars value.toList
    ((respelled? spell value).isSome = true ↔ isStringLiteral cs = true ∨ isCharLiteral cs = true ∨
      cs ≠ [] ∧ ∀ c ∈ cs, isArithmeticChar c = true) ∧
    (isStringLiteral cs = true ∨ isCharLiteral cs = true →
      respelled? spell value = some (String.ofList cs)) ∧
    (Arithmetic cs → ∃ written, respelled? spell value = some written ∧
      Arithmetic written.toList) := by
  intro cs
  have accepted : (respelled? spell value).isSome = true ↔ isSimple cs = true := by
    unfold respelled?
    dsimp only
    split
    next simple =>
      split
      · simp [cs, simple]
      · simp [cs, simple]
    next refused => simp [cs, refused]
  have simple : isSimple cs = true ↔ isStringLiteral cs = true ∨ isCharLiteral cs = true ∨
      cs ≠ [] ∧ ∀ c ∈ cs, isArithmeticChar c = true := by simp [isSimple, or_assoc]
  refine ⟨accepted.trans simple, fun literal => ?_, fun arithmetic => ?_⟩
  · have head : cs.head? = some '"' ∨ cs.head? = some '\'' :=
      literal.imp (fun found => (ends_of_isStringLiteral found).1)
        fun found => (ends_of_isCharLiteral found).1
    have isSimple : isSimple cs = true := simple.mpr (literal.imp_right .inl)
    unfold respelled?
    dsimp only
    rw [if_pos isSimple, if_pos (by simpa using head)]
  · obtain ⟨written, found⟩ := Option.isSome_iff_exists.mp
      ((accepted.trans simple).mpr (.inr (.inr arithmetic.allowed)))
    refine ⟨written, found, ?_⟩
    have noQuote : ∀ quote ∈ ['"', '\''], cs.head? ≠ some quote := by
      intro quote listed head
      have quotes : ∀ quote ∈ ['"', '\''], isArithmeticChar quote = false :=
        List.all_iff_forall_prop.mp (by decide)
      have := arithmetic.allowed.2 quote (List.mem_of_head? head)
      simp [quotes quote listed] at this
    rcases respelled?_cases found with ⟨-, literal | literal⟩ | ⟨-, -, rfl⟩
    · exact absurd (ends_of_isStringLiteral literal).1 (noQuote _ (by simp))
    · exact absurd (ends_of_isCharLiteral literal).1 (noQuote _ (by simp))
    · have same : (String.join ((tokens cs).map (Token.spelled spell))).toList =
          spelledChars spell cs := by
        rw [String.toList_join, List.flatMap_map]
        rfl
      rw [same]
      exact arithmetic.spelled names

/-- Both languages spell names as names if the table gives them such. -/
theorem isWholeName_spelled {table : SymbolTable} (names : ∀ name symbol,
    table.lookup name = some symbol → isWholeName symbol.targetName.toList = true) (name : List Char)
    (isName : isWholeName name = true) :
    isWholeName (spellInC table (String.ofList name)).toList = true ∧
      isWholeName (spellInPython table (String.ofList name)).toList = true := by
  have named : isWholeName (table.targetName (String.ofList name)).toList = true := by
    unfold SymbolTable.targetName
    split
    next found => exact names _ _ found
    next => simpa using isName
  unfold spellInC spellInPython
  constructor <;> split <;> first | exact named | decide

/-- A sum with a product in brackets, whose number loses its suffix and whose `a` is renamed. -/
theorem respelled_arithmetic_sum :
    let table : SymbolTable := { inner := [{ Symbol.scalar "a" .int with targetName := "a1" }] }
    ∃ written, respelled? (spellInC table) "a + (b*3L)" = some written ∧
      Arithmetic written.toList := by
  intro table
  refine (respelled_arithmetic _ (fun name isName => (isWholeName_spelled ?_ name isName).1)
    "a + (b*3L)").2.2 ?_
  · intro name symbol found
    obtain ⟨scope, inScopes, inScope⟩ := List.exists_of_findSome?_eq_some found
    cases List.mem_singleton.mp inScopes
    cases List.mem_singleton.mp (List.mem_of_find?_eq_some inScope)
    decide
  · have product : Arithmetic (['b'] ++ ([] ++ '*' :: []) ++ (['3'] ++ [] ++ ['L'])) :=
      .binary rfl (by decide) rfl (.name (by decide))
        (.suffixed ⟨by simp, by decide, .inl rfl⟩ (by decide))
    have sum : Arithmetic (['a'] ++ ([' '] ++ '+' :: [' ']) ++ ('(' :: [] ++ _ ++ ([] ++ [')']))) :=
      .binary (by decide) (by decide) (by decide) (.name (by decide)) (.bracketed rfl rfl product)
    have same : trimChars "a + (b*3L)".toList = "a + (b*3L)".toList := by decide +kernel
    exact same ▸ sum

theorem not_arithmetic {cs : List Char} (noNumber : cs.head?.any Char.isDigit = false)
    (noName : isWholeName cs = false) (open? : cs.head? ≠ some '(' ∨ cs.getLast? ≠ some ')')
    (noOperator : ['+', '-', '*', '%'].all (· ∉ cs) = true ∨ cs.length < 3) : ¬Arithmetic cs := by
  have noDigit {whole fraction rest : List Char} (numeral : IsNumeral whole fraction) :
      (whole ++ rest).head?.any Char.isDigit = true := by
    obtain ⟨d, whole, rfl⟩ := List.exists_cons_of_ne_nil numeral.filled
    exact all_eq_true.mp numeral.digits d mem_cons_self
  intro arithmetic
  cases arithmetic with
  | number numeral =>
    rw [noDigit numeral] at noNumber
    cases noNumber
  | suffixed numeral _ =>
    rw [append_assoc, noDigit numeral] at noNumber
    cases noNumber
  | name isName => simp [isName] at noName
  | bracketed _ _ _ =>
    rw [← append_assoc, List.getLast?_concat] at open?
    exact open?.elim (fun other => other rfl) fun other => other rfl
  | binary _ operator _ left right =>
    rcases noOperator with absent | short
    · exact of_decide_eq_true (all_eq_true.mp absent _ operator) (by simp)
    · have := List.length_pos_iff.mpr left.allowed.1
      have := List.length_pos_iff.mpr right.allowed.1
      simp only [List.length_append, length_cons] at short
      omega

/-- A call of a member, an operator without operands and brackets that are not closed are written as
they stand. -/
theorem respelled_accepts_unfinished :
    let accepted (value : String) : Prop := respelled? id value = some value ∧
      isStringLiteral value.toList = false ∧ isCharLiteral value.toList = false ∧
      ¬Arithmetic value.toList
    accepted "a.b()" ∧ accepted "+" ∧ accepted "((" := by
  have written : ∀ value ∈ ["a.b()", "+", "(("], respelled? id value = some value ∧
      isStringLiteral value.toList = false ∧ isCharLiteral value.toList = false ∧
      value.toList.head?.any Char.isDigit = false ∧ isWholeName value.toList = false ∧
      (value.toList.head? ≠ some '(' ∨ value.toList.getLast? ≠ some ')') ∧
      (['+', '-', '*', '%'].all (· ∉ value.toList) = true ∨ value.toList.length < 3) := by
    decide +kernel
  have each (value : String) (listed : value ∈ ["a.b()", "+", "(("]) :
      respelled? id value = some value ∧ isStringLiteral value.toList = false ∧
        isCharLiteral value.toList = false ∧ ¬Arithmetic value.toList := by
    obtain ⟨same, noString, noChar, noNumber, noName, open?, noOperator⟩ := written value listed
    exact ⟨same, noString, noChar, not_arithmetic noNumber noName open? noOperator⟩
  exact ⟨each _ (by simp), each _ (by simp), each _ (by simp)⟩

end Degraded

end Retarget
