import Retarget.Proofs.RangeLoop

/-!
# Integer literals

The value of an integer literal of Java and that of its numeral in Python. A literal in another
radix than ten spells the bits of a word, so that one with the first bit set is negative. A minus
sign is no part of a numeral, so the number computed with for a literal under such signs is never the
least one.
-/

namespace Retarget.Lexeme

open Text

variable {digits cs : List Char} {n radix : Nat} {c : Char}

def isSuffixed (digits : List Char) : Bool :=
  digits.getLast? = some 'l' || digits.getLast? = some 'L'

def withoutSuffix (digits : List Char) : List Char :=
  if isSuffixed digits then digits.dropLast else digits

/-- How many values a literal can have. -/
def rangeOf (digits : List Char) : Nat :=
  if isSuffixed digits then 18446744073709551616 else 4294967296

/-- The value of a literal without digit separators. A decimal one may be as great as the least
number is small, for a minus sign to stand before it. -/
def javaValue? (digits : List Char) : Option Int := do
  let n ← Numeral.java.value? (withoutSuffix digits)
  if (withoutSuffix digits).head? = some '0' then
    guard (n < rangeOf digits)
    return if n < rangeOf digits / 2 then n else n - rangeOf digits
  else
    guard (n ≤ rangeOf digits / 2)
    return n

theorem isDigit_of_getLast? (found : Numeral.natural? radix cs = some n) (small : radix ≤ 10)
    (before : List Char) (last : (before ++ cs).getLast? = some c) : c.isDigit = true := by
  have filled : cs ≠ [] := by
    rintro rfl
    cases found
  rw [List.getLast?_append, Option.or_of_isSome (by simpa using filled)] at last
  obtain ⟨d, digit, less⟩ := Numeral.digit_of_mem found c (List.mem_of_getLast? last)
  exact isDigit_of_digitValue digit (by omega)

theorem isHex_or_isDigit (found : Numeral.java.value? digits = some n)
    (last : digits.getLast? = some c) :
    ("0x".toList.isPrefixOf digits || "0X".toList.isPrefixOf digits) = true ∨ c.isDigit = true := by
  rcases Numeral.java_cases found with ⟨x, rest, rfl, hex, -⟩ | ⟨b, rest, rfl, -, number⟩ |
    ⟨d, rest, rfl, -, number⟩ | ⟨-, number⟩
  · have letter : x = 'x' ∨ x = 'X' := by
      rcases toLower_cases x with same | ⟨-, -, sum⟩
      · exact .inl (same.symm.trans hex)
      · rw [hex] at sum
        exact .inr (Char.toNat_inj.mp (Nat.add_right_cancel sum.symm))
    rcases letter with rfl | rfl <;> exact .inl rfl
  · exact .inr (isDigit_of_getLast? number (by omega) ['0', b] last)
  · exact .inr (isDigit_of_getLast? number (by omega) ['0'] last)
  · exact .inr (isDigit_of_getLast? number (by omega) [] last)

theorem integerLiteral_eq (found : Numeral.java.value? (withoutSuffix digits) = some n) :
    integerLiteral digits = if isSuffixed digits then .long (String.ofList (withoutSuffix digits))
      else .int (String.ofList (withoutSuffix digits)) := by
  cases last : digits.getLast? with
  | none =>
    rw [List.getLast?_eq_none_iff.mp last] at found
    cases found
  | some c =>
    by_cases suffix : c = 'l' ∨ c = 'L'
    · have suffixed : isSuffixed digits = true := by simpa [isSuffixed, last] using suffix
      simp [integerLiteral, last, suffix, suffixed, withoutSuffix, withoutLast]
    · have bare : isSuffixed digits = false := by simpa [isSuffixed, last] using suffix
      have whole : withoutSuffix digits = digits := by simp [withoutSuffix, bare]
      rw [whole] at found ⊢
      have unmarked (letter : Char) (alpha : letter.isDigit = false) : (c = letter &&
          !("0x".toList.isPrefixOf digits || "0X".toList.isPrefixOf digits)) = false := by
        rcases isHex_or_isDigit found last with hex | digit
        · rw [hex]
          exact Bool.and_false _
        · have other : c ≠ letter := by
            rintro rfl
            exact Bool.false_ne_true (alpha.symm.trans digit)
          rw [decide_eq_false other, Bool.false_and]
      simp only [integerLiteral, last, Bool.and_or_distrib_right, unmarked 'f' rfl,
        unmarked 'F' rfl, unmarked 'd' rfl, unmarked 'D' rfl]
      simpa [bare] using suffix

/-- An integer literal of Java keeps its value in Python exactly when it is not negative. -/
theorem literalText_value_iff {kind text : String} {value : Int}
    (whole : contains "floating_point" kind = false)
    (read : javaValue? (text.toList.filter (· ≠ '_')) = some value) :
    ∃ n, Numeral.python.value? (Python.literalText (number kind text)).toList = some n ∧
      ((n : Int) = value ↔ 0 ≤ value) := by
  simp only [number, whole]
  generalize text.toList.filter (· ≠ '_') = digits at read ⊢
  obtain ⟨n, found, rule⟩ := Option.bind_eq_some_iff.mp read
  refine ⟨n, ?_, ?_⟩
  · have spelled : Numeral.java.value? (String.ofList (withoutSuffix digits)).toList = some n := by
      rwa [String.toList_ofList]
    have kept := Numeral.value?_integerText spelled
    simp only [Bool.false_eq_true, if_false, integerLiteral_eq found]
    split <;> exact kept
  · split at rule
    · obtain ⟨_, small, same⟩ := Option.bind_eq_some_iff.mp rule
      have less : n < rangeOf digits := (Option.guard_eq_some' _).mp small
      cases same
      split <;> omega
    · obtain ⟨_, _, same⟩ := Option.bind_eq_some_iff.mp rule
      cases same
      exact iff_of_true rfl (Int.natCast_nonneg n)

/-- Numerals in three radixes, one of them with separators and one with all but the first bit set. -/
theorem literalText_value_iff_kept :
    let value? (text : String) :=
      Numeral.python.value? (Python.literalText (number "literal" text)).toList
    value? "0x7fff_ffff" = some 2147483647 ∧ value? "017" = some 15 ∧ value? "1_0L" = some 10 := by
  have whole : contains "floating_point" "literal" = false := by decide
  have kept {text : String} {value : Nat} (read : javaValue? (text.toList.filter (· ≠ '_')) =
      some (value : Int)) : Numeral.python.value?
        (Python.literalText (number "literal" text)).toList = some value := by
    obtain ⟨n, found, same⟩ := literalText_value_iff whole read
    rw [found, Int.ofNat.inj (same.mpr (Int.natCast_nonneg value))]
  exact ⟨kept (by decide +kernel), kept (by decide +kernel), kept (by decide +kernel)⟩

/-- All bits set spell minus one, and the numeral in Python the greatest word. -/
theorem literalText_loses_sign :
    javaValue? "0xFFFFFFFF".toList = some (-1) ∧
    Python.literalText (number "hex_integer_literal" "0xFFFFFFFF") = "0xFFFFFFFF" ∧
    Numeral.python.value? "0xFFFFFFFF".toList = some 4294967295 := by decide +kernel

end Retarget.Lexeme

/-! ## Numerals of the targets -/

namespace Retarget

open Text

variable {n : Nat}

namespace Numeral

/-- A bare leading zero tells the octal radix, and no letter the binary one. -/
def c : Style where
  radixes := [('x', 16)]
  afterZero := natural? 8

theorem beginsWith_binary {digits : String} :
    beginsWith "0b" (lower digits) = true ↔
      ∃ x rest, digits.toList = '0' :: x :: rest ∧ x.toLower = 'b' := by
  have lowered : (lower digits).toList = digits.toList.map Char.toLower := String.toList_ofList
  have mark : "0b".toList = ['0', 'b'] := by decide
  rw [beginsWith, lowered, mark, List.isPrefixOf_iff_prefix]
  constructor
  · rintro ⟨tail, same⟩
    obtain ⟨zero, more, whole, isZero, same⟩ := List.map_eq_cons_iff.mp same.symm
    obtain ⟨x, rest, rfl, binary, -⟩ := List.map_eq_cons_iff.mp same
    exact ⟨x, rest, by rw [whole, eq_of_toLower isZero (by decide)], binary⟩
  · rintro ⟨x, rest, same, binary⟩
    refine ⟨rest.map Char.toLower, ?_⟩
    rw [same, List.map_cons, List.map_cons, binary]
    rfl

/-- A binary numeral is written in decimal, and any other one as it is. -/
theorem value?_cIntegerText {digits : String} (found : java.value? digits.toList = some n)
    (small : isInteger (n : Int) = true) : c.value? (C.integerText digits).toList = some n := by
  have read : Literal.numeralValue digits = some (n : Int) := by
    rw [numeralValue_eq found, Option.filter_some_pos small]
  have written : C.integerText digits =
      if beginsWith "0b" (lower digits) then toString (n : Int) else digits := by
    simp only [C.integerText, read]
  have kept (other : ∀ x rest, digits.toList = '0' :: x :: rest → x.toLower ≠ 'b') :
      C.integerText digits = digits := by
    rw [written, if_neg]
    intro binary
    obtain ⟨x, rest, same, letter⟩ := beginsWith_binary.mp binary
    exact other x rest same letter
  rcases java_cases found with ⟨x, rest, same, hex, number⟩ | ⟨x, rest, same, binary, -⟩ |
    ⟨x, rest, same, digit, number⟩ | ⟨other, number⟩
  · have radix : c.radixes.lookup x.toLower = some 16 := by
      rw [hex]
      rfl
    rw [kept, same, Style.value?]
    · simpa only [radix] using number
    · intro y more here binary
      rw [same] at here
      cases here
      exact absurd (hex.symm.trans binary) (by decide)
  · rw [written, if_pos (beginsWith_binary.mpr ⟨x, rest, same, binary⟩)]
    exact c.value?_repr n
  · have unlettered : ∀ letter : Char, letter.isDigit = false → x.toLower ≠ letter := by
      intro letter other same
      exact Bool.false_ne_true ((isDigit_eq_false_of_toLower same other).symm.trans digit)
    have unknown : c.radixes.lookup x.toLower = none :=
      List.lookup_eq_none_iff.mpr (by simp [c, unlettered 'x' rfl])
    rw [kept, same, Style.value?]
    · simp only [unknown]
      exact number
    · intro y more here binary
      rw [same] at here
      cases here
      exact unlettered 'b' rfl binary
  · rw [kept fun x rest same => absurd same (other x rest)]
    unfold Style.value?
    split
    next x rest same => exact absurd same (other x rest)
    next => exact number

end Numeral

namespace Lexeme

/-- The value of an integer literal of Java is computed where it is in range, and both numerals
written for it have that value. The one in C of a literal with a suffix has a suffix as well. -/
theorem literal_values_agree {kind text : String} (whole : contains "floating_point" kind = false)
    (lexeme : Numeral.java.value? (withoutSuffix (text.toList.filter (· ≠ '_'))) = some n) :
    (number kind text).integer? = (some (n : Int)).filter isInteger ∧
      ∀ value, (number kind text).integer? = some value → value = n ∧
        Numeral.python.value? (Python.literalText (number kind text)).toList = some n ∧
        ∃ numeral, Numeral.c.value? numeral.toList = some n ∧ ∀ cx,
          (C.literalText (number kind text)).run cx = .ok (numeral ++
            if isSuffixed (text.toList.filter (· ≠ '_')) then "LL" else "", cx) := by
  simp only [number, whole, Bool.false_eq_true, if_false]
  generalize text.toList.filter (· ≠ '_') = digits at lexeme ⊢
  have spelled : Numeral.java.value? (String.ofList (withoutSuffix digits)).toList = some n := by
    rwa [String.toList_ofList]
  have computed : (integerLiteral digits).integer? = (some (n : Int)).filter isInteger := by
    rw [← Numeral.numeralValue_eq spelled, integerLiteral_eq lexeme]
    split <;> rfl
  refine ⟨computed, fun value read => ?_⟩
  obtain ⟨same, small⟩ := Option.filter_eq_some_iff.mp (computed.symm.trans read)
  cases same
  have python := Numeral.value?_integerText spelled
  have c := Numeral.value?_cIntegerText spelled small
  rw [integerLiteral_eq lexeme]
  split
  · exact ⟨rfl, python, _, c, fun _ => rfl⟩
  · exact ⟨rfl, python, _, c, fun _ => by rw [String.append_empty]; rfl⟩

/-- The binary digits of a literal with a suffix stay in Python and become decimal ones in C. -/
theorem literal_values_agree_binary :
    let literal := number "binary_integer_literal" "0B1111_0000L"
    literal.integer? = some 240 ∧ Python.literalText literal = "0B11110000" ∧
      Numeral.python.value? "0B11110000".toList = some 240 ∧
      ∃ numeral, Numeral.c.value? numeral.toList = some 240 ∧ ∀ cx,
        (C.literalText literal).run cx = .ok (numeral ++ "LL", cx) := by
  intro literal
  have lexeme : Numeral.java.value?
      (withoutSuffix ("0B1111_0000L".toList.filter (· ≠ '_'))) = some 240 := by decide +kernel
  have whole : contains "floating_point" "binary_integer_literal" = false := by decide
  obtain ⟨computed, agree⟩ := literal_values_agree whole lexeme
  obtain ⟨-, python, c⟩ := agree 240 computed
  exact ⟨computed, by decide +kernel, python, c⟩

end Lexeme

/-! ## Minus signs -/

variable {e : Expr} {node : Node}

namespace Lexeme

/-- The number of an integer literal, whatever its type has room for. -/
def number? (text : String) : Option Nat :=
  Numeral.java.value? (withoutSuffix (text.toList.filter (· ≠ '_')))

theorem number_standsFor {kind text : String} (whole : contains "floating_point" kind = false)
    (lexeme : number? text = some n) : (Expr.literal (number kind text)).StandsFor n := by
  have spelled : Numeral.java.value?
      (String.ofList (withoutSuffix (text.toList.filter (· ≠ '_')))).toList = some n := by
    rwa [String.toList_ofList]
  simp only [number, whole, Bool.false_eq_true, if_false]
  rw [integerLiteral_eq lexeme]
  split
  · exact .long spelled
  · exact .int spelled

end Lexeme

/-- The numerals of integers are integer literals of Java. -/
def Node.Lexical (node : Node) : Prop :=
  ∀ token ∈ node.nodes, token.isNumeral = true → contains "floating_point" token.kind = false →
    ∃ n, Lexeme.number? token.text = some n

def Expr.Signed (e : Expr) : Prop :=
  literalInteger e = .ok none ∨ ∃ v, e.StandsFor v

theorem Node.numeral_signed (lexical : node.Lexical) {token : Node} (member : token ∈ node.nodes)
    (isNumeral : token.isNumeral = true) : (Expr.literal token.numeral).Signed := by
  cases whole : contains "floating_point" token.kind with
  | true =>
    refine .inl (congrArg Except.ok ?_)
    rw [numeral, Lexeme.number, if_pos whole, Lexeme.integer?_floatingLiteral]
  | false =>
    obtain ⟨n, lexeme⟩ := lexical token member isNumeral whole
    exact .inr ⟨n, Lexeme.number_standsFor whole lexeme⟩

namespace Lower

theorem expr_signed (lexical : node.Lexical) : Carries (expr node) Expr.Signed := by
  induction node with
  | mk info children ih =>
    have each : ∀ child ∈ children, Carries (expr child) Expr.Signed := fun child member =>
      ih child member fun token below => lexical token
        (List.mem_cons_of_mem _ (Node.mem_nodesOf.mpr ⟨child, member, below⟩))
    rw [expr]
    split
    next found =>
      refine .ok ?_
      obtain ⟨value, rfl, none⟩ | ⟨name, rfl⟩ | ⟨isNumber, rfl⟩ := leaf?_cases found
      · exact .inl (congrArg Except.ok none)
      · exact .inl rfl
      · have isNumeral : (Node.mk info children).isNumeral = true := decide_eq_true isNumber
        have signed := Node.numeral_signed lexical List.mem_cons_self isNumeral
        exact signed
    next =>
      split
      · split
        next found => exact carries_found (firstExpr_eq children ▸ found) each
        next => exact .error _
      case h_3 =>
        refine (Carries.trivial _).bind fun spelling _ => ?_
        refine (carries_getD (fun _ found => carries_found (exprIn_eq _ children ▸ found) each)
          (.error _)).bind fun operand signed => ?_
        split
        next op _ =>
          refine .ok ?_
          cases op with
          | neg =>
            rcases signed with none | ⟨v, stands⟩
            · exact .inl (by rw [literalInteger, none])
            · exact .inr ⟨-v, .neg stands⟩
          | _ => exact .inl rfl
        next => exact .error _
      -- Every other expression is neither a literal nor a negation.
      all_goals
        repeat' first
          | unfold binaryOf
          | split
          | refine (Carries.trivial _).bind fun _ _ => ?_
          | exact .error _
          | exact .ok (.inl rfl)

theorem small_of_lexical (lexical : node.Lexical) : Small maxInteger node.nodes := by
  intro token member isNumeral number spelled
  have read : literalInteger (.literal token.numeral) = .ok (some number) :=
    congrArg Except.ok spelled
  have signed := Node.numeral_signed lexical member isNumeral
  generalize token.numeral = value at read signed
  rcases signed with none | ⟨v, stands⟩
  · cases none.symm.trans read
  · rw [literalInteger_of_standsFor stands] at read
    split at read <;> cases read
    cases stands <;> omega

/-- Reading the number of a lowered expression never fails. Only an integer literal under minus
signs has one, and it can be negated, counted down from as a bound and taken as a step. -/
theorem literalInteger_lowered (lexical : node.Lexical) (read : expr node = .ok e) :
    (∃ value, literalInteger e = .ok value) ∧
    (∀ v, literalInteger e = .ok (some v) ↔ e.StandsFor v ∧ -maxInteger ≤ v ∧ v ≤ maxInteger) ∧
    (∀ v, literalInteger e = .ok (some v) → isInteger (-v) = true) ∧
    (∀ left bound v cx, e = .compare .ge left bound → literalInteger bound = .ok (some v) →
      (Python.rangeEnd .ge bound).run.run cx = .ok (.ok (toString (v - 1)), cx)) ∧
    ∀ name, ∃ step, Python.stepOf name e = .ok step ∧ ∀ k, step = some k → isInteger k = true := by
  have tame := expr_within node (small_of_lexical lexical) e read
  obtain ⟨value, found, bounds⟩ := literalInteger_of_within (Int.le_refl _) tame
  refine ⟨⟨value, found⟩, fun v => ⟨fun spelled => ⟨?_, ?_⟩, ?_⟩, fun v spelled => ?_, ?_,
    fun name => Python.stepOf_eq_ok name tame⟩
  · rcases expr_signed lexical e read with none | ⟨number, stands⟩
    · cases none.symm.trans spelled
    · rwa [stands.literalInteger_eq spelled]
  · exact bounds v (Except.ok.inj (found.symm.trans spelled))
  · rintro ⟨stands, fits⟩
    rw [literalInteger_of_standsFor stands, if_pos fits]
  · have fits := bounds v (Except.ok.inj (found.symm.trans spelled))
    simp only [isInteger_iff, minInteger, maxInteger] at fits ⊢
    omega
  · rintro left bound v cx rfl spelled
    obtain ⟨value, found, bounds⟩ := literalInteger_of_within (Int.le_refl _) tame.2
    have fits := bounds v (Except.ok.inj (found.symm.trans spelled))
    have moved : Python.subIntegers v 1 = .ok (v - 1) := by
      refine if_pos (isInteger_iff.mpr ?_)
      simp only [minInteger, maxInteger] at fits ⊢
      omega
    rw [Python.rangeEnd, spelled]
    show (toString <$> Attempt.ofExcept (Python.subIntegers v 1) : Attempt String).run.run cx = _
    rw [moved]
    rfl

/-- The numeral in `-(-9223372036854775807L)` is the greatest one that can be negated. -/
theorem literalInteger_lowered_signs :
    let part := Node.sample
    let negated (operand : Node) : Node :=
      part "unary_expression" "" "" [part "-" "operator" "-" [], operand]
    let node := negated (part "parenthesized_expression" "operand" "" [
      negated (part "decimal_integer_literal" "operand" "9223372036854775807L" [])])
    node.Lexical ∧ ∃ e, expr node = .ok e ∧ literalInteger e = .ok (some 9223372036854775807) := by
  intro part negated node
  have lexical : node.Lexical := by
    have all : ∀ token ∈ node.nodes, token.isNumeral = true →
        contains "floating_point" token.kind = false →
        (Lexeme.number? token.text).isSome = true := by decide +kernel
    exact fun token member isNumeral whole =>
      Option.isSome_iff_exists.mp (all token member isNumeral whole)
  have read : expr node =
      .ok (.unary .neg (.unary .neg (.literal (.long "9223372036854775807")))) := by decide +kernel
  have number : Numeral.java.value? "9223372036854775807".toList = some 9223372036854775807 := by
    decide +kernel
  refine ⟨lexical, _, read, ((literalInteger_lowered lexical read).2.1 _).mpr ?_⟩
  exact ⟨.neg (.neg (.long number)), by decide, by decide⟩

end Lower

end Retarget
