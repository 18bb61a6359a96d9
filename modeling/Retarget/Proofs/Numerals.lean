import Mathlib.Data.Nat.Digits.Defs
import Retarget.Lower.Lexeme
import Retarget.Render.PythonExpr

/-!
# What numerals stand for

A numeral stands for the number that its digits make up in its radix, over the integers and without
regard to the width of a machine word.
-/

namespace Retarget

variable {n : Int}

namespace Text

theorem nonneg_of_natCast {number : Option Nat}
    (cast : (do pure (← number : Int) : Option Int).map (fun n => n) = some n) : 0 ≤ n := by
  cases number with
  | none => cases cast
  | some m =>
    cases cast
    exact Int.natCast_nonneg m

theorem isInteger_iff : isInteger n = true ↔ minInteger ≤ n ∧ n ≤ maxInteger := by
  rw [isInteger, Bool.and_eq_true, decide_eq_true_iff, decide_eq_true_iff]

theorem integerValue_bounds {radix : Nat} {cs : List Char} (signless : '-' ∉ cs)
    (spelled : integerValue radix cs = some n) : 0 ≤ n ∧ n ≤ maxInteger := by
  obtain ⟨value, fits⟩ := Option.filter_eq_some_iff.mp spelled
  refine ⟨?_, (isInteger_iff.mp fits).2⟩
  cases cs with
  | nil => cases value
  | cons c cs =>
    have unsigned : c ≠ '-' := fun same => signless (same ▸ List.mem_cons_self)
    rw [signedValue, if_neg unsigned] at value
    split at value
    · exact nonneg_of_natCast value
    · exact nonneg_of_natCast value

/-- A capital letter moves up to the small one, and any other character stays. -/
theorem toLower_cases (c : Char) :
    c.toLower = c ∨ 65 ≤ c.toNat ∧ c.toNat ≤ 90 ∧ c.toLower.toNat = c.toNat + 32 := by
  delta Char.toLower
  split
  next capital =>
    have letter : 65 ≤ c.toNat ∧ c.toNat ≤ 90 := by simpa [UInt32.le_iff_toNat_le] using capital
    have sum : (c.val + ('a'.val - 'A'.val)).toNat = c.toNat + 32 := by
      exact Nat.mod_eq_of_lt (by simp; omega)
    exact .inr ⟨letter.1, letter.2, sum⟩
  next => exact .inl rfl

theorem eq_of_toLower {c other : Char} (lowered : c.toLower = other) (below : other.toNat < 97) :
    c = other := by
  rcases toLower_cases c with same | ⟨low, -, sum⟩
  · exact same.symm.trans lowered
  · rw [lowered] at sum
    omega

theorem minus_notMem_lower {digits : String} (signless : '-' ∉ digits.toList) :
    '-' ∉ (lower digits).toList := by
  simp only [lower, String.toList_ofList, List.mem_map, not_exists, not_and]
  intro c member lowered
  exact signless (eq_of_toLower lowered (by decide) ▸ member)

end Text

namespace Literal

theorem numeralValue_bounds {digits : String} (signless : '-' ∉ digits.toList)
    (spelled : numeralValue digits = some n) : 0 ≤ n ∧ n ≤ Text.maxInteger := by
  have lowered := Text.minus_notMem_lower signless
  unfold numeralValue at spelled
  split at spelled
  case h_1 cs same | h_2 cs same =>
    exact Text.integerValue_bounds (by simp_all) spelled
  next c cs _ _ same =>
    exact Text.integerValue_bounds (by simp_all) spelled
  next => exact Text.integerValue_bounds lowered spelled

/-- An integer literal that fits 64 bits is no negative number and at most the limit. -/
def Within (limit : Int) (value : Literal) : Prop :=
  ∀ n, value.integer? = some n → 0 ≤ n ∧ n ≤ limit

end Literal

namespace Lexeme

theorem minus_notMem_withoutLast {digits : List Char} (signless : '-' ∉ digits) :
    '-' ∉ (withoutLast digits).toList := by
  rw [withoutLast, String.toList_ofList]
  exact fun member => signless (List.dropLast_subset _ member)

theorem integer?_floatingLiteral (digits : List Char) :
    (floatingLiteral digits).integer? = none := by
  unfold floatingLiteral
  split
  · split
    · rfl
    · split <;> rfl
  · rfl

theorem integerLiteral_within {digits : List Char} (signless : '-' ∉ digits) :
    (integerLiteral digits).Within Text.maxInteger := by
  have whole : '-' ∉ (String.ofList digits).toList := by
    rw [String.toList_ofList]
    exact signless
  have trimmed := minus_notMem_withoutLast signless
  unfold integerLiteral
  dsimp only
  split
  · split
    · exact fun n spelled => Literal.numeralValue_bounds trimmed spelled
    · split
      · exact nofun
      · split
        · exact nofun
        · exact fun n spelled => Literal.numeralValue_bounds whole spelled
  · have empty : '-' ∉ "".toList := by decide
    exact fun n spelled => Literal.numeralValue_bounds empty spelled

theorem number_within (kind : String) {text : String} (signless : '-' ∉ text.toList) :
    (number kind text).Within Text.maxInteger := by
  unfold number
  split
  · intro n spelled
    rw [integer?_floatingLiteral] at spelled
    cases spelled
  · exact integerLiteral_within fun member => signless (List.mem_filter.mp member).1

end Lexeme

namespace Expr

mutual

def Within (limit : Int) : Expr → Prop
  | literal value => value.Within limit
  | ident _ => True
  | binary _ left right => left.Within limit ∧ right.Within limit
  | unary _ operand => operand.Within limit
  | logical _ left right => left.Within limit ∧ right.Within limit
  | compare _ left right => left.Within limit ∧ right.Within limit
  | assign _ target value => target.Within limit ∧ value.Within limit
  | update _ _ target => target.Within limit
  | index array position => array.Within limit ∧ position.Within limit
  | member object _ => object.Within limit
  | arrayLiteral items => AllWithin limit items
  | ternary condition onTrue onFalse =>
    condition.Within limit ∧ onTrue.Within limit ∧ onFalse.Within limit
  | cast _ operand => operand.Within limit
  | call none _ args => AllWithin limit args
  | call (some receiver) _ args => receiver.Within limit ∧ AllWithin limit args

def AllWithin (limit : Int) : List Expr → Prop
  | [] => True
  | e :: rest => e.Within limit ∧ AllWithin limit rest

end

theorem allWithin_iff {limit : Int} {es : List Expr} :
    AllWithin limit es ↔ ∀ e ∈ es, e.Within limit := by
  induction es with
  | nil => simp [AllWithin]
  | cons e rest ih => simp [AllWithin, ih]

end Expr

/-- Negation keeps the value of a literal in range, since the range mirrors itself about zero. -/
theorem literalInteger_of_within {limit : Int} (fits : limit ≤ Text.maxInteger) {e : Expr}
    (within : e.Within limit) : ∃ value, literalInteger e = .ok value ∧
      ∀ n, value = some n → -limit ≤ n ∧ n ≤ limit := by
  fun_induction literalInteger e with
  | case1 value =>
    refine ⟨_, rfl, fun n spelled => ?_⟩
    have bounds := within n spelled
    omega
  | case2 operand inner ih =>
    obtain ⟨value, found, bounds⟩ := ih within
    cases inner.symm.trans found
    have lower := (bounds _ rfl).1
    simp only [Text.minInteger, Text.maxInteger] at lower fits
    omega
  | case3 operand v inner least ih =>
    obtain ⟨value, found, bounds⟩ := ih within
    cases inner.symm.trans found
    have := bounds v rfl
    refine ⟨_, rfl, fun n same => ?_⟩
    cases same
    omega
  | case4 operand other ih => exact ih within
  | case5 => exact ⟨none, rfl, nofun⟩

/-! ## Digits -/

variable {n radix d : Nat} {cs : List Char} {c : Char}

namespace Text

theorem digitValue_eq (c : Char) : digitValue c =
    if 48 ≤ c.toNat ∧ c.toNat ≤ 57 then some (c.toNat - 48)
    else if 97 ≤ c.toNat ∧ c.toNat ≤ 122 then some (c.toNat - 97 + 10)
    else if 65 ≤ c.toNat ∧ c.toNat ≤ 90 then some (c.toNat - 65 + 10)
    else none := by
  simp only [digitValue, Bool.and_eq_true, decide_eq_true_eq, Char.le_def, UInt32.le_iff_toNat_le]
  rfl

theorem digitValue_toLower (c : Char) : digitValue c.toLower = digitValue c := by
  rcases toLower_cases c with same | ⟨low, high, sum⟩
  · rw [same]
  · rw [digitValue_eq, digitValue_eq, sum, if_neg (by omega), if_pos (by omega), if_neg (by omega),
      if_neg (by omega), if_pos (by omega)]
    exact congrArg some (by omega)

theorem isDigit_iff (c : Char) : c.isDigit = true ↔ 48 ≤ c.toNat ∧ c.toNat ≤ 57 := by
  simp only [Char.isDigit, Bool.and_eq_true, decide_eq_true_eq, UInt32.le_iff_toNat_le]
  rfl

theorem isDigit_of_digitValue (found : digitValue c = some d) (small : d < 10) :
    c.isDigit = true := by
  rw [isDigit_iff]
  rw [digitValue_eq] at found
  split at found
  · assumption
  · split at found
    · cases found
      omega
    · split at found
      · cases found
        omega
      · cases found

theorem toLower_of_isDigit (digit : c.isDigit = true) : c.toLower = c := by
  have range := (isDigit_iff c).mp digit
  rcases toLower_cases c with same | ⟨low, -, -⟩
  · exact same
  · omega

theorem isDigit_eq_false_of_toLower {letter : Char} (same : c.toLower = letter)
    (other : letter.isDigit = false) : c.isDigit = false := by
  by_contra digit
  rw [toLower_of_isDigit (by simpa using digit)] at same
  rw [same] at digit
  exact digit other

end Text

namespace Numeral

def digits? (radix : Nat) (cs : List Char) : Option (List Nat) :=
  cs.mapM fun c => (Text.digitValue c).filter (· < radix)

/-- The number that one digit or more stand for, the most significant one first. -/
def natural? (radix : Nat) (cs : List Char) : Option Nat :=
  if cs.isEmpty then none
  else (digits? radix cs).map fun digits => Nat.ofDigits radix digits.reverse

theorem digits?_cons (radix : Nat) (c : Char) (cs : List Char) :
    digits? radix (c :: cs) = ((Text.digitValue c).filter (· < radix)).bind fun d =>
      (digits? radix cs).map (d :: ·) := by
  rw [digits?, List.mapM_cons]
  cases (Text.digitValue c).filter (· < radix) with
  | none => rfl
  | some d => cases found : digits? radix cs <;> simp_all [digits?]

/-- Reading digits one after the other goes on with the number that was read before as the most
significant digit. -/
theorem digitsValue_eq (radix value : Nat) (cs : List Char) :
    Text.digitsValue radix value cs = (digits? radix cs).map fun digits =>
      Nat.ofDigits radix (digits.reverse ++ [value]) := by
  induction cs generalizing value with
  | nil => simp [Text.digitsValue, digits?]
  | cons c cs ih =>
    rw [Text.digitsValue, digits?_cons]
    cases Text.digitValue c with
    | none => rfl
    | some d =>
      dsimp only
      by_cases small : d < radix
      · have carried : Nat.ofDigits radix [value * radix + d] = Nat.ofDigits radix [d, value] := by
          rw [Nat.ofDigits_singleton, Nat.ofDigits_cons, Nat.ofDigits_singleton,
            Nat.mul_comm, Nat.add_comm]
        rw [if_pos small, ih, Option.filter_some_pos (by simpa using small), Option.bind_some,
          Option.map_map]
        congr 1
        funext digits
        rw [Function.comp, List.reverse_cons, List.append_assoc, List.singleton_append,
          Nat.ofDigits_append, Nat.ofDigits_append, carried]
      · rw [if_neg small, Option.filter_some_neg (by simpa using small)]
        rfl

theorem unsignedValue_eq (radix : Nat) (cs : List Char) :
    Text.unsignedValue radix cs = natural? radix cs := by
  cases cs with
  | nil => rfl
  | cons c cs =>
    rw [Text.unsignedValue, digitsValue_eq, natural?, if_neg (by simp)]
    simp [Nat.ofDigits_append]

theorem digit_of_mem (found : natural? radix cs = some n) :
    ∀ c ∈ cs, ∃ d, Text.digitValue c = some d ∧ d < radix := by
  have read : ∀ cs digits, digits? radix cs = some digits →
      ∀ c ∈ cs, ∃ d, Text.digitValue c = some d ∧ d < radix := by
    intro cs
    induction cs with
    | nil => exact fun _ _ _ member => by cases member
    | cons c cs ih =>
      intro digits all other member
      rw [digits?_cons] at all
      obtain ⟨d, digit, all⟩ := Option.bind_eq_some_iff.mp all
      obtain ⟨rest, inside, -⟩ := Option.map_eq_some_iff.mp all
      rcases List.mem_cons.mp member with rfl | later
      · exact ⟨d, by simpa using Option.filter_eq_some_iff.mp digit⟩
      · exact ih rest inside other later
  rw [natural?] at found
  split at found
  · cases found
  · obtain ⟨digits, all, -⟩ := Option.map_eq_some_iff.mp found
    exact read cs digits all

theorem exists_digit (found : natural? radix (c :: cs) = some n) :
    ∃ d, Text.digitValue c = some d ∧ d < radix :=
  digit_of_mem found c List.mem_cons_self

theorem natural?_map_toLower (radix : Nat) (cs : List Char) :
    natural? radix (cs.map Char.toLower) = natural? radix cs := by
  have small : (fun c => (Text.digitValue c).filter (· < radix)) ∘ Char.toLower =
      fun c => (Text.digitValue c).filter (· < radix) :=
    funext fun c => by rw [Function.comp, Text.digitValue_toLower]
  rw [natural?, natural?, digits?, digits?, List.mapM_map, small, List.isEmpty_map]

theorem natural?_concat (found : natural? radix cs = some n) (digit : Text.digitValue c = some d)
    (small : d < radix) : natural? radix (cs ++ [c]) = some (d + radix * n) := by
  rw [natural?] at found ⊢
  cases whole : cs.isEmpty with
  | true => simp [whole] at found
  | false =>
    rw [whole, if_neg Bool.false_ne_true] at found
    obtain ⟨digits, read, rfl⟩ := Option.map_eq_some_iff.mp found
    have longer : digits? radix (cs ++ [c]) = some (digits ++ [d]) := by
      rw [digits?, List.mapM_append, ← digits?, read, List.mapM_cons, digit,
        Option.filter_some_pos (by simpa using small)]
      rfl
    rw [if_neg (by simp), longer, Option.map_some, List.reverse_concat, Nat.ofDigits_cons]

/-- A numeral without a sign in front is read as the number of its digits, if that is in range. -/
theorem integerValue_eq (found : natural? radix cs = some n) :
    Text.integerValue radix (cs.map Char.toLower) = (some (n : Int)).filter Text.isInteger := by
  rw [← natural?_map_toLower] at found
  generalize cs.map Char.toLower = cs at found
  have signed : Text.signedValue radix cs = some (n : Int) := by
    cases cs with
    | nil => cases found
    | cons c cs =>
      obtain ⟨d, digit, -⟩ := exists_digit found
      have plain : c ≠ '-' ∧ c ≠ '+' := by
        constructor <;> rintro rfl <;> cases digit
      rw [Text.signedValue, if_neg plain.1, if_neg plain.2, unsignedValue_eq, found]
      rfl
  rw [Text.integerValue, signed]

/-- How a language spells numerals: the letters that tell a radix after a leading zero, and what
other characters after a leading zero stand for. -/
structure Style where
  radixes : List (Char × Nat)
  afterZero : List Char → Option Nat

def Style.value? (style : Style) : List Char → Option Nat
  | '0' :: c :: cs =>
    match style.radixes.lookup c.toLower with
    | some radix => natural? radix cs
    | none => style.afterZero (c :: cs)
  | cs => natural? 10 cs

/-- A bare leading zero tells the octal radix. -/
def java : Style where
  radixes := [('x', 16), ('b', 2)]
  afterZero := natural? 8

/-- After a bare leading zero only zeros may stand. -/
def python : Style where
  radixes := [('x', 16), ('o', 8), ('b', 2)]
  afterZero cs := if cs.all (· = '0') then some 0 else none

theorem Style.head_isDigit {style : Style} (found : style.value? cs = some n) :
    ∃ c rest, cs = c :: rest ∧ c.isDigit = true := by
  unfold Style.value? at found
  split at found
  next => exact ⟨_, _, rfl, rfl⟩
  next =>
    cases cs with
    | nil => cases found
    | cons c rest =>
      obtain ⟨d, digit, small⟩ := exists_digit found
      exact ⟨c, rest, rfl, Text.isDigit_of_digitValue digit small⟩

theorem java_cases (found : java.value? cs = some n) :
    (∃ c rest, cs = '0' :: c :: rest ∧ c.toLower = 'x' ∧ natural? 16 rest = some n) ∨
    (∃ c rest, cs = '0' :: c :: rest ∧ c.toLower = 'b' ∧ natural? 2 rest = some n) ∨
    (∃ c rest, cs = '0' :: c :: rest ∧ c.isDigit = true ∧ natural? 8 (c :: rest) = some n) ∨
    ((∀ c rest, cs ≠ '0' :: c :: rest) ∧ natural? 10 cs = some n) := by
  unfold Style.value? at found
  split at found
  next c rest =>
    by_cases hex : c.toLower = 'x'
    · exact .inl ⟨c, rest, rfl, hex, by rwa [hex] at found⟩
    · by_cases binary : c.toLower = 'b'
      · exact .inr (.inl ⟨c, rest, rfl, binary, by rwa [binary] at found⟩)
      · have octal : java.afterZero (c :: rest) = some n := by
          have unknown : java.radixes.lookup c.toLower = none :=
            List.lookup_eq_none_iff.mpr (by simp [java, hex, binary])
          simpa only [unknown] using found
        obtain ⟨d, digit, small⟩ := exists_digit octal
        exact .inr (.inr (.inl ⟨c, rest, rfl, Text.isDigit_of_digitValue digit (by omega), octal⟩))
  next other => exact .inr (.inr (.inr ⟨fun c rest same => other c rest same, found⟩))

theorem numeralValue_eq {digits : String} (found : java.value? digits.toList = some n) :
    Literal.numeralValue digits = (some (n : Int)).filter Text.isInteger := by
  have lowered : (Text.lower digits).toList = digits.toList.map Char.toLower :=
    String.toList_ofList
  rcases java_cases found with ⟨c, rest, same, hex, number⟩ | ⟨c, rest, same, binary, number⟩ |
    ⟨c, rest, same, digit, number⟩ | ⟨other, number⟩
  · rw [Literal.numeralValue, lowered, same, List.map_cons, List.map_cons, hex]
    exact integerValue_eq number
  · rw [Literal.numeralValue, lowered, same, List.map_cons, List.map_cons, binary]
    exact integerValue_eq number
  · have small : c.toLower = c := Text.toLower_of_isDigit digit
    rw [← integerValue_eq number, List.map_cons, small]
    unfold Literal.numeralValue
    rw [lowered, same, List.map_cons, List.map_cons, small]
    split
    next here =>
      cases here
      cases digit
    next here =>
      cases here
      cases digit
    next here =>
      cases here
      rfl
    next other => exact (other c _ rfl).elim
  · have decimal : ∀ c rest, digits.toList.map Char.toLower ≠ '0' :: c :: rest := by
      intro c rest same
      obtain ⟨first, after, whole, zero, more⟩ := List.map_eq_cons_iff.mp same
      obtain ⟨second, last, tail, -, -⟩ := List.map_eq_cons_iff.mp more
      exact other second last (by rw [whole, tail, Text.eq_of_toLower zero (by decide)])
    unfold Literal.numeralValue
    rw [lowered]
    split
    case h_1 here | h_2 here | h_3 here => exact absurd here (decimal _ _)
    next => exact integerValue_eq number

/-- The text of an integer literal keeps the number: an octal one gets its letter. -/
theorem value?_integerText {digits : String} (found : java.value? digits.toList = some n) :
    python.value? (Python.integerText digits).toList = some n := by
  rcases java_cases found with ⟨c, rest, same, hex, number⟩ | ⟨c, rest, same, binary, number⟩ |
    ⟨c, rest, same, digit, number⟩ | ⟨other, number⟩
  · have letter : c.isDigit = false := Text.isDigit_eq_false_of_toLower hex rfl
    have kept : Python.integerText digits = digits := by simp [Python.integerText, same, letter]
    have radix : python.radixes.lookup c.toLower = some 16 := by
      rw [hex]
      rfl
    rw [kept, same, Style.value?]
    simpa only [radix] using number
  · have letter : c.isDigit = false := Text.isDigit_eq_false_of_toLower binary rfl
    have kept : Python.integerText digits = digits := by simp [Python.integerText, same, letter]
    have radix : python.radixes.lookup c.toLower = some 2 := by
      rw [binary]
      rfl
    rw [kept, same, Style.value?]
    simpa only [radix] using number
  · have marked : (Python.integerText digits).toList = '0' :: 'o' :: c :: rest := by
      simp [Python.integerText, same, digit]
    rw [marked]
    exact number
  · have plain : Python.integerText digits = digits := by
      unfold Python.integerText
      split
      next c rest same => exact absurd same (other c rest)
      next => rfl
    rw [plain]
    unfold Style.value?
    split
    next c rest same => exact absurd same (other c rest)
    next => exact number

theorem digitValue_digitChar (small : d < 10) : Text.digitValue d.digitChar = some d := by
  have all : ∀ d < 10, Text.digitValue d.digitChar = some d := by decide
  exact all d small

theorem natural?_toDigits (n : Nat) : natural? 10 (Nat.toDigits 10 n) = some n := by
  induction n using Nat.strong_induction_on with
  | _ n ih =>
    by_cases small : n < 10
    · rw [Nat.toDigits_of_lt_base small, natural?, if_neg (by simp), digits?_cons,
        digitValue_digitChar small, Option.filter_some_pos (by simpa using small)]
      simp [digits?]
    · rw [Nat.toDigits_of_base_le (by omega) (by omega),
        natural?_concat (ih (n / 10) (by omega)) (digitValue_digitChar (Nat.mod_lt n (by omega)))
          (Nat.mod_lt n (by omega))]
      exact congrArg some (Nat.mod_add_div n 10)

theorem head?_toDigits (positive : 0 < n) : (Nat.toDigits 10 n).head? ≠ some '0' := by
  induction n using Nat.strong_induction_on with
  | _ n ih =>
    by_cases small : n < 10
    · have all : ∀ d < 10, 0 < d → d.digitChar ≠ '0' := by decide
      rw [Nat.toDigits_of_lt_base small]
      exact fun same => all n small positive (Option.some.inj same)
    · rw [Nat.toDigits_of_base_le (by omega) (by omega),
        List.head?_append, Option.or_of_isSome (by simp)]
      exact ih (n / 10) (by omega) (by omega)

theorem Style.value?_repr (style : Style) (n : Nat) : style.value? n.repr.toList = some n := by
  rw [Nat.toList_repr]
  by_cases positive : 0 < n
  · unfold Style.value?
    split
    next same => exact absurd (congrArg List.head? same) (head?_toDigits positive)
    next => exact natural?_toDigits n
  · have zero : n = 0 := by omega
    rw [zero]
    rfl

end Numeral

end Retarget
