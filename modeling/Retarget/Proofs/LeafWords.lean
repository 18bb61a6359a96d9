import Retarget.Proofs.CodeWords
import Retarget.Proofs.PythonOperators
import Retarget.Proofs.Wording

/-!
# The words of leaves

The words that each target gets from its library, and the leaves that bring none of them into an
output: identifiers that are no such words, numerals, and bodies of literals that keep their quotes.
-/

namespace Retarget

open Text Degraded Reading
open List (append_assoc nil_suffix)

variable {cs : List Char} {c mark : Char} {escaped : Bool}

def libraryWords : Target → List (String × Capability)
  | .c =>
    [("bool", .bool), ("true", .bool), ("false", .bool), ("fmod", .math), ("fabs", .math),
      ("fmax", .math), ("fmin", .math), ("llround", .math), ("sqrt", .math), ("cbrt", .math),
      ("pow", .math), ("floor", .math), ("ceil", .math), ("exp", .math), ("log", .math),
      ("log10", .math), ("sin", .math), ("cos", .math), ("tan", .math), ("asin", .math),
      ("acos", .math), ("atan", .math), ("atan2", .math), ("hypot", .math), ("M_PI", .math),
      ("M_E", .math), ("abs", .stdlib), ("llabs", .stdlib), ("rand", .stdlib),
      ("RAND_MAX", .stdlib), ("atoi", .stdlib), ("atoll", .stdlib), ("atof", .stdlib),
      ("strcmp", .string), ("strlen", .string), ("memcpy", .string), ("memset", .string),
      ("INT_MAX", .limits), ("INT_MIN", .limits), ("LLONG_MAX", .limits), ("LLONG_MIN", .limits)]
  | .python => [("math", .math), ("random", .stdlib)]

namespace Text

/-- A name that can be written in a program: letters, digits and the like, not beginning with a
digit. -/
def IsIdentifier (name : String) : Prop :=
  name.toList.head?.any (fun c => !isDecimalDigit c) = true ∧ ∀ c ∈ name.toList, isNameChar c = true

instance decidableIsIdentifier (name : String) : Decidable (IsIdentifier name) :=
  @instDecidableAnd _ _ inferInstance
    (List.decidableBAll (fun c => isNameChar c = true) name.toList)

def numeralFrom (exponent : Bool) : List Char → Bool
  | [] => true
  | c :: cs => continuesNumber exponent c && numeralFrom (c ∈ exponentMarks) cs

def isNumeral : List Char → Bool
  | [] => false
  | c :: cs =>
    if c = '.' then cs.head?.any Char.isDigit && numeralFrom false cs
    else c.isDigit && numeralFrom false cs

def escapes : List Char :=
  ['b', 's', 't', 'n', 'f', 'r', '"', '\'', '\\', '0', '1', '2', '3', '4', '5', '6', '7', 'u']

/-- Whether characters are the rest of a literal's body; `escaped` says that a backslash stands
before them. A body holds no line feed and no quote but escaped ones. -/
def isBody (mark : Char) (escaped : Bool) : List Char → Bool
  | [] => !escaped
  | c :: cs =>
    if escaped then c ∈ escapes && isBody mark false cs
    else c ≠ mark && c ≠ '\n' && isBody mark (c = '\\') cs

end Text

def Free (target : Target) (text : String) : Prop :=
  ∀ entry ∈ libraryWords target, Text.contains entry.1 text = false

instance decidableFree (target : Target) (text : String) : Decidable (Free target text) :=
  inferInstanceAs (Decidable (∀ entry ∈ libraryWords target, Text.contains entry.1 text = false))

/-- A leaf that brings no word of the library into an output. The array of an alias in scope may
name what is in use. -/
def Leaf.Lexical (target : Target) (caps : Caps) : Leaf → Prop
  | name written => IsIdentifier written ∧ Covered (libraryWords target) {} written
  | numeral digits => isNumeral digits.toList = true
  | letter body => isBody '\'' false body.toList = true ∧ Free target body
  | text body => isBody '"' false body.toList = true ∧ Free target body
  | remark comment => target = .c → if comment.isBlock then Text.contains "*/" comment.text = false
      else ∀ part ∈ lines comment.text, endsIn "\\" part = false
  | source .. => False
  | measured array => Closed (libraryWords target) .c caps false array

instance decidableLexical (target : Target) (caps : Caps) :
    DecidablePred (Leaf.Lexical target caps)
  | .name written => inferInstanceAs
      (Decidable (IsIdentifier written ∧ Covered (libraryWords target) {} written))
  | .numeral digits => inferInstanceAs (Decidable (isNumeral digits.toList = true))
  | .letter body => inferInstanceAs
      (Decidable (isBody '\'' false body.toList = true ∧ Free target body))
  | .text body => inferInstanceAs (Decidable (isBody '"' false body.toList = true ∧ Free target body))
  | .remark comment => inferInstanceAs (Decidable (target = .c →
      if comment.isBlock then Text.contains "*/" comment.text = false
      else ∀ part ∈ lines comment.text, endsIn "\\" part = false))
  | .source .. => .isFalse id
  | .measured array => inferInstanceAs (Decidable (Closed (libraryWords target) .c caps false array))

section Names

variable {table : List (String × Capability)} {style : Style} {caps : Caps} {inside : Bool}

theorem ne_lineFeed_of_isNameChar (nameChar : isNameChar c = true) : c ≠ '\n' := by
  rintro rfl
  exact absurd nameChar (by decide)

theorem reach_word (style : Style) (inside : Bool) (letters : List Char)
    (nameChars : ∀ c ∈ cs, isNameChar c = true) : (word inside letters).emitted style cs = [] ∧
      (word inside letters).reach style cs = word inside (cs.reverse ++ letters) := by
  induction cs generalizing letters with
  | nil => exact ⟨rfl, rfl⟩
  | cons c cs ih =>
    have first := nameChars c List.mem_cons_self
    have longer : (word inside letters).next style c = word inside (c :: letters) := by
      simp [next, first, ne_lineFeed_of_isNameChar first]
    obtain ⟨nothing, reached⟩ := ih (c :: letters) fun other member =>
      nameChars other (List.mem_cons_of_mem c member)
    constructor
    · rw [emitted, longer, nothing]
      simp [ended, first]
    · rw [reach, List.foldl_cons, longer, ← reach, reached]
      simp

theorem closed_of_isIdentifier {name : String} (identifier : IsIdentifier name)
    (covered : Covered table caps name) : Closed table style caps inside name := by
  obtain ⟨begins, nameChars⟩ := identifier
  obtain ⟨c, head, notDigit⟩ := (Option.any_eq_true _ _).mp begins
  obtain ⟨cs, whole⟩ := List.head?_eq_some_iff.mp head
  rw [whole] at nameChars
  have first := nameChars c List.mem_cons_self
  have started : (code inside).next style c = word inside [c] := by
    have notDigit : isDecimalDigit c = false := by simpa using notDigit
    simp [next, start, first, notDigit, ne_lineFeed_of_isNameChar first]
  obtain ⟨nothing, reached⟩ := reach_word style inside [c] fun other member =>
    nameChars other (List.mem_cons_of_mem c member)
  constructor
  · intro word member
    rw [whole, emitted, started, nothing] at member
    simp [ended] at member
  · rw [whole, reach, List.foldl_cons, started, ← reach, reached]
    refine ⟨rfl, ?_⟩
    have same : String.ofList (cs.reverse ++ [c]).reverse = name := by
      rw [← String.toList_inj]
      simp [whole]
    rw [same]
    exact covered

end Names

section Numerals

variable {table : List (String × Capability)} {style : Style} {caps : Caps} {inside : Bool}

theorem isNameChar_of_isDigit (digit : c.isDigit = true) : isNameChar c = true := by
  simp [isNameChar, Python.isWordChar_of_isDigit digit]

theorem reach_number (style : Style) (inside exponent : Bool)
    (continues : numeralFrom exponent cs = true) : (number inside exponent).emitted style cs = [] ∧
      ∃ last, (number inside exponent).reach style cs = number inside last := by
  induction cs generalizing exponent with
  | nil => exact ⟨rfl, exponent, rfl⟩
  | cons c cs ih =>
    obtain ⟨first, rest⟩ := Bool.and_eq_true_iff.mp continues
    have notFeed : c ≠ '\n' := by
      rintro rfl
      cases exponent <;> exact absurd first (by decide)
    have step : (number inside exponent).next style c = number inside (c ∈ exponentMarks) := by
      simp [next, first, notFeed]
    obtain ⟨nothing, last, reached⟩ := ih _ rest
    refine ⟨?_, last, ?_⟩
    · rw [emitted, step, nothing]
      rfl
    · rw [reach, List.foldl_cons, step]
      exact reached

theorem next_of_isDigit (digit : c.isDigit = true) :
    (code inside).next style c = number inside false := by
  have notFeed := ne_lineFeed_of_isNameChar (isNameChar_of_isDigit digit)
  simp [next, start, notFeed, isDecimalDigit_of_isDigit digit]

theorem closed_of_isNumeral {text : String} (numeral : isNumeral text.toList = true) :
    Closed table style caps inside text := by
  have closed (c : Char) (cs : List Char) (digit : c.isDigit = true)
      (continues : numeralFrom false cs = true) : (code inside).emitted style (c :: cs) = [] ∧
        ∃ last, (code inside).reach style (c :: cs) = number inside last := by
    rw [emitted, reach, List.foldl_cons, next_of_isDigit digit]
    exact reach_number style inside false continues
  unfold Closed Covers
  cases whole : text.toList with
  | nil =>
    rw [whole] at numeral
    cases numeral
  | cons c cs =>
    rw [whole, isNumeral] at numeral
    split at numeral
    next isPoint =>
      obtain ⟨begins, continues⟩ := Bool.and_eq_true_iff.mp numeral
      obtain ⟨d, head, digit⟩ := (Option.any_eq_true _ _).mp begins
      obtain ⟨rest, rfl⟩ := List.head?_eq_some_iff.mp head
      obtain ⟨-, continues⟩ := Bool.and_eq_true_iff.mp continues
      have point : (code inside).next style c = code inside := by
        subst isPoint
        cases style <;> cases inside <;> decide
      have noExponent : (decide (d ∈ exponentMarks)) = false := by
        simp only [decide_eq_false_iff_not]
        intro member
        have letters : ∀ letter ∈ exponentMarks, letter.isDigit = false :=
          List.all_iff_forall_prop.mp (by decide)
        exact absurd digit (by simp [letters d member])
      obtain ⟨nothing, last, reached⟩ := closed d rest digit (noExponent ▸ continues)
      rw [emitted, point, nothing, reach, List.foldl_cons, point, ← reach, reached]
      exact ⟨by simp [ended], rfl⟩
    next =>
      obtain ⟨digit, continues⟩ := Bool.and_eq_true_iff.mp numeral
      obtain ⟨nothing, last, reached⟩ := closed c cs digit continues
      rw [nothing, reached]
      exact ⟨by simp, rfl⟩

theorem numeralFrom_append {exponent : Bool} {tail : List Char}
    (continues : numeralFrom exponent cs = true) (plain : ∀ c ∈ tail, isNameChar c = true ∨ c = '.') :
    numeralFrom exponent (cs ++ tail) = true := by
  induction cs generalizing exponent with
  | nil =>
    induction tail generalizing exponent with
    | nil => rfl
    | cons c tail ih =>
      have first : continuesNumber exponent c = true := by
        rcases plain c List.mem_cons_self with nameChar | rfl
        · simp [continuesNumber, nameChar]
        · simp [continuesNumber]
      rw [List.nil_append, numeralFrom, first]
      exact ih (fun other member => plain other (List.mem_cons_of_mem c member)) rfl
  | cons c cs ih =>
    obtain ⟨first, rest⟩ := Bool.and_eq_true_iff.mp continues
    rw [List.cons_append, numeralFrom, first]
    exact ih rest

theorem isNumeral_append {tail : List Char} (numeral : isNumeral cs = true)
    (plain : ∀ c ∈ tail, isNameChar c = true ∨ c = '.') : isNumeral (cs ++ tail) = true := by
  cases cs with
  | nil => cases numeral
  | cons c cs =>
    rw [isNumeral] at numeral
    rw [List.cons_append, isNumeral]
    split at numeral
    next isPoint =>
      obtain ⟨begins, continues⟩ := Bool.and_eq_true_iff.mp numeral
      obtain ⟨d, head, digit⟩ := (Option.any_eq_true _ _).mp begins
      rw [if_pos isPoint, numeralFrom_append continues plain, List.head?_append, head]
      simpa using digit
    next notPoint =>
      obtain ⟨digit, continues⟩ := Bool.and_eq_true_iff.mp numeral
      rw [if_neg notPoint, numeralFrom_append continues plain, digit]
      rfl

theorem isNumeral_toString (n : Nat) : isNumeral (toString n).toList = true := by
  cases digits : (toString n).toList with
  | nil =>
    rw [Nat.toString_eq_ofList_toDigits, String.toList_ofList] at digits
    exact absurd digits Nat.toDigits_ne_nil
  | cons c cs =>
    have all : ∀ d ∈ c :: cs, d.isDigit = true := fun d member =>
      isDigit_of_mem_toString (digits ▸ member)
    have first := all c List.mem_cons_self
    have notPoint : c ≠ '.' := by
      rintro rfl
      cases first
    have continues : numeralFrom false ([] ++ cs) = true :=
      numeralFrom_append rfl fun d member =>
        .inl (isNameChar_of_isDigit (all d (List.mem_cons_of_mem c member)))
    rw [isNumeral, if_neg notPoint, first]
    exact continues

/-- A number in digits with its sign, perhaps with letters at its end. -/
theorem closed_toString_append (n : Int) {tail : String}
    (plain : ∀ c ∈ tail.toList, isNameChar c = true ∨ c = '.') :
    Closed table style caps inside (toString n ++ tail) := by
  have unsigned (n : Nat) : Closed table style caps inside (toString n ++ tail) := by
    apply closed_of_isNumeral
    rw [String.toList_append]
    exact isNumeral_append (isNumeral_toString n) plain
  cases n with
  | ofNat n => exact unsigned n
  | negSucc n =>
    have minus : Leads table style caps inside "-" := by
      refine ⟨?_, ?_⟩
      · intro word member
        cases member
      · cases style <;> cases inside <;> decide
    have whole : toString (Int.negSucc n) ++ tail = "-" ++ (toString (n + 1) ++ tail) := by rfl
    rw [whole]
    exact .lead minus (unsigned (n + 1))

theorem closed_toString (n : Int) : Closed table style caps inside (toString n) := by
  have whole : toString n ++ "" = toString n := String.append_empty
  rw [← whole]
  exact closed_toString_append n fun c member => by cases member

theorem isNumeral_decimalText {digits : String} (numeral : isNumeral digits.toList = true) :
    isNumeral (decimalText digits).toList = true := by
  have lengthened (front : String) (cs : List Char) (same : front.toList = cs)
      (numeral : isNumeral cs = true) : isNumeral (front ++
        (if !Text.contains "." digits then ".0" else if Text.endsIn "." digits then "0"
          else "")).toList = true := by
    rw [String.toList_append, same]
    apply isNumeral_append numeral
    split
    · intro c member
      rcases List.mem_cons.mp member with rfl | member
      · exact .inr rfl
      · cases List.mem_singleton.mp member
        exact .inl (by decide)
    · split
      · intro c member
        cases List.mem_singleton.mp member
        exact .inl (by decide)
      · intro c member
        cases member
  unfold decimalText
  dsimp only
  split
  · exact numeral
  · split
    next begins =>
      apply lengthened ("0" ++ digits) ('0' :: digits.toList) (by simp)
      obtain ⟨cs, whole⟩ := List.isPrefixOf_iff_prefix.mp begins
      rw [← whole] at numeral ⊢
      exact (Bool.and_eq_true_iff.mp numeral).2
    next =>
      have whole : "" ++ digits = digits := String.empty_append
      exact lengthened digits _ rfl numeral

end Numerals

section Literals

variable {table : List (String × Capability)} {style : Style} {caps : Caps} {inside : Bool}

/-- Whether the character after some characters of a literal is escaped, unless they hold the quote
that closes it or a line feed. -/
def quoteFrom (mark : Char) : Bool → List Char → Option Bool
  | escaped, [] => some escaped
  | escaped, c :: cs =>
    if c = '\n' || (!escaped && c = mark) then none
    else quoteFrom mark (!escaped && c = '\\') cs

theorem quoteFrom_append (mark : Char) (escaped : Bool) (first second : List Char) :
    quoteFrom mark escaped (first ++ second) =
      (quoteFrom mark escaped first).bind fun reached => quoteFrom mark reached second := by
  induction first generalizing escaped with
  | nil => rfl
  | cons c cs ih =>
    rw [List.cons_append, quoteFrom, quoteFrom, ih]
    split <;> rfl

theorem reach_quote (style : Style) (inside : Bool) {last : Bool}
    (kept : quoteFrom mark escaped cs = some last) :
    (quote inside mark escaped).emitted style cs = [] ∧
      (quote inside mark escaped).reach style cs = quote inside mark last := by
  induction cs generalizing escaped with
  | nil =>
    cases kept
    exact ⟨rfl, rfl⟩
  | cons c cs ih =>
    rw [quoteFrom] at kept
    split at kept
    · cases kept
    next other =>
      simp only [Bool.or_eq_true, decide_eq_true_eq, Bool.and_eq_true, Bool.not_eq_true',
        not_or, not_and] at other
      have step : (quote inside mark escaped).next style c =
          quote inside mark (!escaped && c = '\\') := by
        cases escaped with
        | true => simp [next, other.1]
        | false => simp [next, other.1, other.2 rfl]
      obtain ⟨nothing, reached⟩ := ih kept
      constructor
      · rw [emitted, step, nothing]
        rfl
      · rw [reach, List.foldl_cons, step]
        exact reached

theorem escapes_ne_lineFeed (member : c ∈ escapes) : c ≠ '\n' := by
  rintro rfl
  exact absurd member (by decide)

theorem isBody_cons (body : isBody mark escaped (c :: cs) = true) :
    isBody mark (!escaped && c = '\\') cs = true ∧
      quoteFrom mark escaped [c] = some (!escaped && c = '\\') ∧
        (escaped = true → c ∈ escapes) := by
  rw [isBody] at body
  cases escaped with
  | true =>
    rw [if_pos rfl, Bool.and_eq_true, decide_eq_true_eq] at body
    refine ⟨body.2, ?_, fun _ => body.1⟩
    simp [quoteFrom, escapes_ne_lineFeed body.1]
  | false =>
    simp only [Bool.false_eq_true, if_false, Bool.and_eq_true, decide_eq_true_eq] at body
    refine ⟨body.2, ?_, by simp⟩
    simp [quoteFrom, body.1]

theorem isBody_append {first second : List Char}
    (body : isBody mark escaped (first ++ second) = true) :
    ∃ last, quoteFrom mark escaped first = some last ∧ isBody mark last second = true := by
  induction first generalizing escaped with
  | nil => exact ⟨escaped, rfl, body⟩
  | cons c cs ih =>
    obtain ⟨rest, read, -⟩ := isBody_cons body
    obtain ⟨last, kept, ends⟩ := ih rest
    have whole := quoteFrom_append mark escaped [c] cs
    rw [read] at whole
    exact ⟨last, whole.trans kept, ends⟩

theorem quoteFrom_of_isBody (body : isBody mark escaped cs = true) :
    quoteFrom mark escaped cs = some false := by
  rw [← List.append_nil cs] at body
  obtain ⟨last, kept, ends⟩ := isBody_append body
  cases last with
  | true => cases ends
  | false => exact kept

def quotes : List (Char × String) :=
  [('"', "\""), ('\'', "'")]

theorem closed_between {sign body : String} (known : (mark, sign) ∈ quotes)
    (notBare : style ≠ .bare) (kept : quoteFrom mark false body.toList = some false) :
    Closed table style caps inside (sign ++ body ++ sign) := by
  have all : ∀ entry ∈ quotes, entry.2.toList = [entry.1] ∧ ∀ style ∈ [Style.c, .python],
      ∀ inside ∈ [false, true], (code inside).next style entry.1 = quote inside entry.1 false ∧
        (quote inside entry.1 false).next style entry.1 = code inside := by decide
  have read : style ∈ [Style.c, .python] := by
    cases style <;> simp at notBare ⊢
  obtain ⟨written, turns⟩ := all _ known
  obtain ⟨opens, closes⟩ := turns style read inside (by cases inside <;> simp)
  obtain ⟨nothing, reached⟩ := reach_quote style inside kept
  have whole : (sign ++ body ++ sign).toList = mark :: (body.toList ++ [mark]) := by simp [written]
  unfold Closed Covers
  rw [whole, emitted, opens, emitted_append, nothing, reached, reach, List.foldl_cons, opens,
    ← reach, reach_append, reached]
  constructor
  · simp [emitted, ended]
  · rw [reach, List.foldl_cons, closes]
    rfl

end Literals

section Bare

variable {style : Style} {caps : Caps} {inside : Bool}

def Reading.pending : Reading → List Char
  | word _ letters => letters.reverse
  | _ => []

theorem pending_start (style : Style) (inside : Bool) (c : Char) :
    (start style inside c).pending = [] ∨ (start style inside c).pending = [c] := by
  unfold start
  split
  · exact .inl rfl
  · split
    · exact .inr rfl
    · split
      · exact .inl rfl
      · split
        · exact .inl rfl
        · split <;> exact .inl rfl
      · split
        · exact .inl rfl
        · split
          · exact .inl rfl
          · split <;> exact .inl rfl

theorem pending_next (style : Style) (reading : Reading) (c : Char) :
    (reading.next style c).pending <:+ reading.pending ++ [c] := by
  have fresh (inside : Bool) : (start style inside c).pending <:+ reading.pending ++ [c] := by
    rcases pending_start style inside c with none | one
    · rw [none]
      exact nil_suffix
    · rw [one]
      exact List.suffix_append _ _
  unfold next
  split
  · unfold lineEnd
    split <;> exact nil_suffix
  · split
    · exact fresh _
    · split
      · simp [Reading.pending]
      · split
        · exact nil_suffix
        · exact fresh _
    · split
      · exact nil_suffix
      · exact fresh _
    · exact nil_suffix
    · split <;> exact nil_suffix
    · exact nil_suffix
    · split
      · exact nil_suffix
      · split <;> exact nil_suffix
    · split
      · exact nil_suffix
      · exact fresh _
    · split
      · exact nil_suffix
      · split
        · exact nil_suffix
        · exact fresh _
    · exact nil_suffix
    · split <;> exact nil_suffix

theorem pending_reach (style : Style) (reading : Reading) (cs : List Char) :
    (reading.reach style cs).pending <:+ reading.pending ++ cs := by
  induction cs generalizing reading with
  | nil => rw [List.append_nil, reach, List.foldl_nil]
  | cons c cs ih =>
    obtain ⟨front, same⟩ := pending_next style reading c
    apply (ih (reading.next style c)).trans
    refine ⟨front, ?_⟩
    rw [← append_assoc, same, append_assoc]
    rfl

theorem infix_of_mem_emitted {reading : Reading} {word : String}
    (member : word ∈ reading.emitted style cs) : word.toList <:+: reading.pending ++ cs := by
  induction cs generalizing reading with
  | nil => cases member
  | cons c cs ih =>
    rcases List.mem_append.mp member with here | later
    · cases reading with
      | word inside letters =>
        simp only [ended] at here
        split at here
        · cases here
        · cases List.mem_singleton.mp here
          rw [String.toList_ofList]
          exact (List.prefix_append _ _).isInfix
      | _ => cases here
    · obtain ⟨front, same⟩ := pending_next style reading c
      apply (ih later).trans
      refine ⟨front, [], ?_⟩
      rw [List.append_nil, ← append_assoc, same, append_assoc]
      rfl

theorem covered_of_infix {target : Target} {text : String} (free : Free target text)
    {letters : List Char} (inText : letters <:+: text.toList) :
    Covered (libraryWords target) caps (String.ofList letters) := by
  intro entry member same
  obtain ⟨before, rest, whole⟩ := inText
  have absent := free entry member
  rw [same, Text.contains, ← whole, String.toList_ofList, append_assoc, occurs_append] at absent
  cases absent

theorem rests_next {reading : Reading} (notFeed : c ≠ '\n') (rests : reading.Rests [] {} inside) :
    (reading.next .bare c).Rests [] {} inside := by
  have fresh : (start .bare inside c).Rests [] {} inside := by
    unfold start
    split
    · rfl
    · split
      · exact ⟨rfl, by simp [Covered]⟩
      · rfl
  cases reading with
  | code here =>
    cases rests
    simpa [next, notFeed] using fresh
  | word here letters =>
    obtain ⟨rfl, -⟩ := rests
    simp only [next, notFeed, if_false]
    split
    · exact ⟨rfl, by simp [Covered]⟩
    · simpa using fresh
  | number here exponent =>
    cases rests
    simp only [next, notFeed, if_false]
    split
    · rfl
    · exact fresh
  | _ => cases rests

theorem rests_reach {reading : Reading} (unbroken : '\n' ∉ cs) (rests : reading.Rests [] {} inside) :
    (reading.reach .bare cs).Rests [] {} inside := by
  induction cs generalizing reading with
  | nil => exact rests
  | cons c cs ih =>
    obtain ⟨notFeed, unbroken⟩ := not_or.mp (List.mem_cons.not.mp unbroken)
    exact ih unbroken (rests_next (Ne.symm notFeed) rests)

theorem closed_of_free {target : Target} {text part : String} (free : Free target text)
    (inText : part.toList <:+: text.toList) (unbroken : '\n' ∉ part.toList) :
    Closed (libraryWords target) .bare caps inside part := by
  constructor
  · intro word member
    have covered : Covered (libraryWords target) caps (String.ofList word.toList) :=
      covered_of_infix free ((infix_of_mem_emitted member).trans inText)
    rwa [String.ofList_toList] at covered
  · have rests : ((code inside).reach .bare part.toList).Rests [] {} inside :=
      rests_reach unbroken rfl
    have pending : ((code inside).reach .bare part.toList).pending <:+: part.toList :=
      (pending_reach .bare (code inside) part.toList).isInfix
    cases reached : (code inside).reach .bare part.toList with
    | word here letters =>
      rw [reached] at rests pending
      exact ⟨rests.1, covered_of_infix free (pending.trans inText)⟩
    | _ =>
      rw [reached] at rests
      exact rests

end Bare

section Names

theorem contains_substitute (name : String) (n : Nat) :
    Text.contains "_var" (Naming.substitute name n) = true := by
  unfold Naming.substitute
  split
  · have whole := contains_append name "_var" ""
    rwa [String.append_empty] at whole
  · exact contains_append name "_var" _

theorem covered_substitute (target : Target) (name : String) (n : Nat) :
    Covered (libraryWords target) {} (Naming.substitute name n) := by
  have free : ∀ entry ∈ libraryWords target, Text.contains "_var" entry.1 = false := by
    cases target <;> decide
  intro entry member same
  have marked := contains_substitute name n
  rw [← same, free entry member] at marked
  cases marked

theorem isIdentifier_append {name tail : String} (identifier : IsIdentifier name)
    (nameChars : ∀ c ∈ tail.toList, isNameChar c = true) : IsIdentifier (name ++ tail) := by
  obtain ⟨begins, inside⟩ := identifier
  obtain ⟨c, head, notDigit⟩ := (Option.any_eq_true _ _).mp begins
  constructor
  · rw [String.toList_append, List.head?_append, head]
    exact notDigit
  · rw [String.toList_append]
    exact List.forall_mem_append.mpr ⟨inside, nameChars⟩

theorem isIdentifier_numbered {name : String} (identifier : IsIdentifier name) (n : Nat) :
    IsIdentifier (name ++ toString n) :=
  isIdentifier_append identifier fun _ member =>
    isNameChar_of_isDigit (isDigit_of_mem_toString member)

theorem isIdentifier_substitute {name : String} (identifier : IsIdentifier name) (n : Nat) :
    IsIdentifier (Naming.substitute name n) := by
  have ending : ∀ c ∈ "_var".toList, isNameChar c = true := List.all_iff_forall_prop.mp (by decide)
  have longer : IsIdentifier (name ++ "_var") := isIdentifier_append identifier ending
  unfold Naming.substitute
  split
  · exact longer
  · exact isIdentifier_numbered longer n

theorem lexical_freshName (target : Target) (table : SymbolTable) :
    IsIdentifier (table.freshName "i") ∧ Covered (libraryWords target) {} (table.freshName "i") := by
  rcases table.freshName_index with usual | ⟨n, numbered⟩
  · have all : ∀ name ∈ ["i", "j", "k"],
        IsIdentifier name ∧ Covered (libraryWords target) {} name := by
      cases target <;> decide
    exact all _ usual
  · rw [numbered]
    refine ⟨isIdentifier_numbered (by decide) n, fun entry member same => ?_⟩
    have others : ∀ entry ∈ libraryWords target, entry.1.toList.head? ≠ some 'i' := by
      cases target <;> decide
    apply absurd _ (others entry member)
    rw [same, Naming.numbered, String.toList_append, List.head?_append]
    rfl

end Names

/-- The leaves that bring no word of the library into an output. -/
def Diction.lexical (target : Target) (caps : Caps) : Diction where
  admits := Leaf.Lexical target caps
  substitute fine n := ⟨isIdentifier_substitute fine.1 n, covered_substitute target _ n⟩
  index table := lexical_freshName target table
  bare fine _ _ := fine.elim

end Retarget
