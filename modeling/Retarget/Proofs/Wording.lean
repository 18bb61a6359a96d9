import Retarget.Proofs.BareText
import Retarget.Proofs.Leaves

/-!
# Leaves without line breaks, and names in their usual form

Two conditions under which more can be said of an output. Where no leaf holds a line break, no line
of the output does.
-/

namespace Retarget

namespace Text

def Unbroken (text : String) : Prop :=
  '\n' ∉ text.toList

instance decidableUnbroken (text : String) : Decidable (Unbroken text) :=
  inferInstanceAs (Decidable ('\n' ∉ text.toList))

def BeginsPlainly (text : String) : Prop :=
  text.toList.head?.any (fun c => !isBlank c) = true

def EndsPlainly (text : String) : Prop :=
  text.toList.getLast? ≠ some ':'

instance decidableEndsPlainly (text : String) : Decidable (EndsPlainly text) :=
  inferInstanceAs (Decidable (text.toList.getLast? ≠ some ':'))

variable {first second text : String}

theorem unbroken_append : Unbroken (first ++ second) ↔ Unbroken first ∧ Unbroken second := by
  simp [Unbroken, not_or]

theorem BeginsPlainly.append (begins : BeginsPlainly first) (second : String) :
    BeginsPlainly (first ++ second) := by
  obtain ⟨c, head, notBlank⟩ := (Option.any_eq_true _ _).mp begins
  rw [BeginsPlainly, String.toList_append, List.head?_append, head]
  exact notBlank

theorem EndsPlainly.append (ends : EndsPlainly first) (endsToo : EndsPlainly second) :
    EndsPlainly (first ++ second) := by
  rw [EndsPlainly, String.toList_append, List.getLast?_append]
  cases last : second.toList.getLast? with
  | none => exact ends
  | some c => exact fun same => endsToo (last.trans same)

theorem endsPlainly_of_not_mem (absent : ':' ∉ text.toList) : EndsPlainly text :=
  fun last => absent (List.mem_of_getLast? last)

instance decidableBeginsPlainly (text : String) : Decidable (BeginsPlainly text) :=
  inferInstanceAs (Decidable (_ = true))

/-- A text that begins and ends plainly. -/
structure Worded (text : String) : Prop where
  begins : BeginsPlainly text
  ends : EndsPlainly text

instance decidableWorded (text : String) : Decidable (Worded text) :=
  decidable_of_iff (BeginsPlainly text ∧ EndsPlainly text)
    ⟨fun parts => ⟨parts.1, parts.2⟩, fun worded => ⟨worded.begins, worded.ends⟩⟩

theorem Worded.append (worded : Worded first) (ends : EndsPlainly second) :
    Worded (first ++ second) :=
  ⟨worded.begins.append second, worded.ends.append ends⟩

theorem unbroken_join {texts : List String} (unbroken : ∀ text ∈ texts, Unbroken text) :
    Unbroken (String.join texts) := by
  intro member
  rw [String.toList_join] at member
  obtain ⟨text, present, inside⟩ := List.mem_flatMap.mp member
  exact unbroken text present inside

theorem endsPlainly_join {texts : List String} (ends : ∀ text ∈ texts, EndsPlainly text) :
    EndsPlainly (String.join texts) := by
  have joined : EndsPlainly ("" ++ String.join texts) :=
    append_join (fun _ text member first => first.append (ends text member)) (by decide)
  rwa [String.empty_append] at joined

theorem isDigit_of_mem_toString {n : Nat} {c : Char} (member : c ∈ (toString n).toList) :
    c.isDigit = true := by
  rw [Nat.toString_eq_ofList_toDigits, String.toList_ofList] at member
  exact Nat.isDigit_of_mem_toDigits (by omega) (by omega) member

theorem unbroken_toString (n : Nat) : Unbroken (toString n) := by
  intro member
  have digit := isDigit_of_mem_toString member
  exact absurd digit (by decide)

theorem endsPlainly_toString (n : Nat) : EndsPlainly (toString n) := by
  apply endsPlainly_of_not_mem
  intro member
  have digit := isDigit_of_mem_toString member
  exact absurd digit (by decide)

end Text

open Text

theorem Degraded.isBlank_of_isNameStart {c : Char} (begins : isNameStart c = true) :
    (!isBlank c) = true := by
  simp only [isNameStart, Bool.or_eq_true, decide_eq_true_eq] at begins
  rcases begins with (letter | rfl) | rfl
  · have := toNat_of_isAlpha letter
    simp [isBlank]
    omega
  · decide
  · decide

namespace Naming

theorem unbroken_substitute {name : String} (unbroken : Unbroken name) (n : Nat) :
    Unbroken (substitute name n) := by
  have longer : Unbroken (name ++ "_var") := unbroken_append.mpr ⟨unbroken, by decide⟩
  unfold substitute
  split
  · exact longer
  · exact unbroken_append.mpr ⟨longer, unbroken_toString n⟩

theorem worded_substitute {name : String} (worded : Worded name) (n : Nat) :
    Worded (substitute name n) := by
  have longer : Worded (name ++ "_var") := worded.append (by decide)
  unfold substitute
  split
  · exact longer
  · exact longer.append (endsPlainly_toString n)

end Naming

namespace Leaf

/-- The texts of a leaf that stand on one line. A comment is broken into lines. -/
def texts : Leaf → List String
  | name body | numeral body | letter body | text body | measured body => [body]
  | remark _ => []
  | source kind body => [kind, body]

def Unbroken (leaf : Leaf) : Prop :=
  ∀ text ∈ leaf.texts, Text.Unbroken text

def Worded : Leaf → Prop
  | name body | numeral body => Text.Worded body
  | letter _ | text _ | remark _ | source .. | measured _ => True

instance decidableLeafUnbroken : DecidablePred Unbroken :=
  fun leaf => inferInstanceAs (Decidable (∀ text ∈ leaf.texts, Text.Unbroken text))

instance decidableLeafWorded : DecidablePred Worded
  | name body | numeral body => inferInstanceAs (Decidable (Text.Worded body))
  | letter _ | text _ | remark _ | source .. | measured _ => .isTrue True.intro

end Leaf

namespace Degraded

theorem IsName.worded {cs : List Char} {name : String} (isName : IsName cs name.toList) :
    Worded name where
  begins := by
    obtain ⟨c, head, begins⟩ := (Option.any_eq_true _ _).mp isName.begins
    rw [BeginsPlainly, head]
    exact isBlank_of_isNameStart begins
  ends := by
    apply endsPlainly_of_not_mem
    intro member
    exact absurd (isName.letters _ member).2 (by decide)

theorem IsName.unbroken {cs : List Char} {name : String} (isName : IsName cs name.toList) :
    Unbroken name := by
  intro member
  exact absurd (isName.letters _ member).2 (by decide)

theorem isName_of_mem_names {text name : String} {shape : Shape}
    (shaped : shape? text = some shape) (member : name ∈ shape.names) :
    IsName text.toList name.toList := by
  have within := within_of_shape? shaped
  have inValue {value : String} (isValue : IsValue text.toList value)
      (inside : name ∈ wordsIn value) : IsName text.toList name.toList := by
    obtain ⟨token, read, found⟩ := List.mem_filterMap.mp inside
    cases token with
    | word letters =>
      cases found
      have isName := (within_of_mem_tokensFrom read).named letters rfl
      rw [String.toList_ofList]
      exact isName.mono fun c present => (isValue c (mem_of_mem_trimChars present)).1
    | number digits suffix => cases found
    | other c => cases found
  cases shape with
  | declaration type declared value =>
    cases value with
    | none =>
      cases List.mem_singleton.mp member
      exact within.1
    | some written =>
      rcases List.mem_cons.mp member with rfl | member
      · exact within.1
      · exact inValue (within.2 written rfl) member
  | assignment target op value =>
    rcases List.mem_cons.mp member with rfl | member
    · exact within.1
    · exact inValue within.2.2 member
  | print body newline => cases member

theorem isValue_of_mem_values {text value : String} {shape : Shape}
    (shaped : shape? text = some shape) (member : value ∈ shape.values) :
    IsValue text.toList value := by
  have within := within_of_shape? shaped
  cases shape with
  | declaration type declared init =>
    cases Option.mem_toList.mp member
    exact within.2 value rfl
  | assignment target op written =>
    cases List.mem_singleton.mp member
    exact within.2.2
  | print body newline => cases member

section Respelled

variable {spell : String → String} {value written : String}

theorem mem_wordsIn {name : List Char}
    (read : .word name ∈ tokens (trimChars value.toList)) : String.ofList name ∈ wordsIn value :=
  List.mem_filterMap.mpr ⟨.word name, read, rfl⟩

theorem unbroken_respelled {cs : List Char} (isValue : IsValue cs value)
    (named : ∀ name ∈ wordsIn value, Unbroken (spell name))
    (respelled : respelled? spell value = some written) : Unbroken written := by
  have inside : '\n' ∉ trimChars value.toList := fun member =>
    (isValue _ (mem_of_mem_trimChars member)).2 rfl
  rcases respelled?_cases respelled with ⟨rfl, -⟩ | ⟨-, -, rfl⟩
  · simpa [Unbroken] using inside
  · apply unbroken_join
    intro text member
    obtain ⟨token, read, rfl⟩ := List.mem_map.mp member
    have letters := (within_of_mem_tokensFrom read).letters
    cases token with
    | number digits suffix =>
      intro broken
      exact inside (letters _ (by simpa [Token.spelled, Token.body] using broken))
    | word name => exact named _ (mem_wordsIn read)
    | other c =>
      intro broken
      exact inside (letters _ (by simpa [Token.spelled, Token.body] using broken))

theorem worded_respelled (named : ∀ name ∈ wordsIn value, Worded (spell name))
    (respelled : respelled? spell value = some written) : Worded written := by
  rcases respelled?_cases respelled with ⟨rfl, literal⟩ | ⟨filled, arithmetic, rfl⟩
  · rcases literal with literal | literal
    · obtain ⟨head, last⟩ := ends_of_isStringLiteral literal
      refine ⟨?_, ?_⟩
      · rw [BeginsPlainly, String.toList_ofList, head]
        decide
      · rw [EndsPlainly, String.toList_ofList, last]
        decide
    · obtain ⟨head, last⟩ := ends_of_isCharLiteral literal
      refine ⟨?_, ?_⟩
      · rw [BeginsPlainly, String.toList_ofList, head]
        decide
      · rw [EndsPlainly, String.toList_ofList, last]
        decide
  · have plain {token : Token} (read : token ∈ tokens (trimChars value.toList)) :
        EndsPlainly (token.spelled spell) := by
      have letters := (within_of_mem_tokensFrom read).letters
      have noColon : ':' ∉ token.body := fun member =>
        absurd (arithmetic _ (letters _ member)) (by decide)
      cases token with
      | number digits suffix =>
        exact endsPlainly_of_not_mem (by simpa [Token.spelled, Token.body] using noColon)
      | word name => exact (named _ (mem_wordsIn read)).ends
      | other c => exact endsPlainly_of_not_mem (by simpa [Token.spelled, Token.body] using noColon)
    obtain ⟨c, cs, trimmed⟩ := List.exists_cons_of_ne_nil filled
    obtain ⟨token, rest, split, head⟩ := tokens_cons c cs
    rw [← trimmed] at split
    have begins : BeginsPlainly (token.spelled spell) := by
      have notBlank : (!isBlank c) = true := by simp [isBlank_of_trimChars trimmed]
      cases token with
      | number digits suffix =>
        have head : digits.head? = some c := head
        simpa [BeginsPlainly, Token.spelled, head] using notBlank
      | word name =>
        have read : .word name ∈ tokens (trimChars value.toList) := split ▸ List.mem_cons_self
        exact (named _ (mem_wordsIn read)).begins
      | other other =>
        cases head
        simpa [BeginsPlainly, Token.spelled] using notBlank
    have whole : EndsPlainly (String.join ((tokens (trimChars value.toList)).map
        (Token.spelled spell))) := by
      apply endsPlainly_join
      intro text member
      obtain ⟨token, read, rfl⟩ := List.mem_map.mp member
      exact plain read
    refine ⟨?_, whole⟩
    rw [split, List.map_cons, String.join_cons]
    exact begins.append _

end Respelled

end Degraded

def Diction.unbroken : Diction where
  admits := Leaf.Unbroken
  substitute fine n := by
    intro text member
    cases List.mem_singleton.mp member
    exact Naming.unbroken_substitute (fine _ List.mem_cons_self) n
  index table := by
    intro text member
    cases List.mem_singleton.mp member
    rcases table.freshName_index with usual | ⟨n, numbered⟩
    · have all : ∀ name ∈ ["i", "j", "k"], Unbroken name := by decide
      exact all _ usual
    · rw [numbered]
      exact unbroken_append.mpr ⟨by decide, unbroken_toString n⟩
  bare _ shaped member := by
    intro text inside
    cases List.mem_singleton.mp inside
    exact (Degraded.isName_of_mem_names shaped member).unbroken

/-- Names and numerals are in their usual form. -/
def Diction.worded : Diction where
  admits := Leaf.Worded
  substitute worded n := Naming.worded_substitute worded n
  index table := by
    rcases table.freshName_index with usual | ⟨n, numbered⟩
    · have all : ∀ name ∈ ["i", "j", "k"], Worded name := by decide
      exact all _ usual
    · have base : Worded "i" := ⟨by decide, by decide⟩
      rw [numbered]
      exact base.append (endsPlainly_toString n)
  bare _ shaped member := (Degraded.isName_of_mem_names shaped member).worded

end Retarget
