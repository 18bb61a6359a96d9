import Mathlib.Data.List.TakeWhile
import Retarget.Degraded.Value
import Retarget.Proofs.Text

/-!
# What is recognised in a bare text

The names, values and bodies that are recognised in the text of a statement consist of characters of
that text.
-/

namespace Retarget

variable {cs rest wider : List Char} {c quote : Char} {value : String}

namespace Text

variable {body : List Char}

theorem mem_of_mem_after? {start : List Char} (found : after? start cs = some rest)
    (member : c ∈ rest) : c ∈ cs := by
  rw [← append_of_after? found]
  exact List.mem_append_right start member

theorem mem_of_mem_trimChars (member : c ∈ trimChars cs) : c ∈ cs :=
  (isInfix_trimmed isBlank cs).subset member

theorem isBlank_of_trimChars (trimmed : trimChars cs = c :: rest) : isBlank c = false := by
  have fails := List.head?_dropWhile_not isBlank cs
  rw [← head?_trimChars, trimmed] at fails
  exact fails

theorem eq_append_of_literalBody? {escaped : Bool}
    (found : literalBody? quote escaped cs = some (body, rest)) : cs = body ++ quote :: rest := by
  induction cs generalizing escaped body with
  | nil => cases found
  | cons first cs ih =>
    unfold literalBody? at found
    split at found
    next closes =>
      cases found
      simp_all
    split at found
    · cases found
    · obtain ⟨⟨inner, _⟩, later, same⟩ := Option.map_eq_some_iff.mp found
      cases same
      exact congrArg (first :: ·) (ih later)

theorem mem_of_mem_stringLiteral? (member : c ∈ ((stringLiteral? cs).getD ([], cs)).1) :
    c ∈ cs := by
  cases literal : stringLiteral? cs with
  | none =>
    rw [literal] at member
    cases member
  | some parts =>
    rw [literal] at member
    unfold stringLiteral? at literal
    split at literal
    · rw [eq_append_of_literalBody? literal]
      exact List.mem_cons_of_mem _ (List.mem_append_left _ member)
    · cases literal

theorem getLast?_cons_of_literalBody?
    (found : literalBody? quote false cs = some (body, [])) :
    (quote :: cs).getLast? = some quote := by
  rw [eq_append_of_literalBody? found, ← List.cons_append]
  exact List.getLast?_concat

theorem ends_of_isStringLiteral (literal : isStringLiteral cs = true) :
    cs.head? = some '"' ∧ cs.getLast? = some '"' := by
  obtain ⟨⟨body, rest⟩, found, empty⟩ := (Option.any_eq_true _ _).mp literal
  cases List.isEmpty_iff.mp empty
  unfold stringLiteral? at found
  split at found
  · exact ⟨rfl, getLast?_cons_of_literalBody? found⟩
  · cases found

theorem ends_of_isCharLiteral (literal : isCharLiteral cs = true) :
    cs.head? = some '\'' ∧ cs.getLast? = some '\'' := by
  unfold isCharLiteral at literal
  split at literal
  · obtain ⟨⟨body, rest⟩, found, filled⟩ := (Option.any_eq_true _ _).mp literal
    cases List.isEmpty_iff.mp (Bool.and_eq_true_iff.mp filled).2
    exact ⟨rfl, getLast?_cons_of_literalBody? found⟩
  · cases literal

end Text

namespace Degraded

open Text

variable {shape : Shape}

/-- A name in the text: it begins like one and has the characters of names only. -/
structure IsName (cs : List Char) (name : List Char) : Prop where
  begins : name.head?.any isNameStart = true
  letters : ∀ c ∈ name, c ∈ cs ∧ isNameChar c = true

def IsValue (cs : List Char) (value : String) : Prop :=
  ∀ c ∈ value.toList, c ∈ cs ∧ c ≠ '\n'

def Shape.Within (cs : List Char) : Shape → Prop
  | declaration _ name value => IsName cs name.toList ∧ ∀ written ∈ value, IsValue cs written
  | print body _ => ∀ c ∈ body.toList, c ∈ cs
  | assignment name op value => IsName cs name.toList ∧ op ∈ assignmentOps ∧ IsValue cs value

theorem mem_of_mem_afterWord? {word : String} (found : afterWord? word cs = some rest)
    (member : c ∈ rest) : c ∈ cs := by
  unfold afterWord? at found
  split at found
  next first rest after =>
    split at found
    · cases found
      exact mem_of_mem_after? after
        (List.mem_cons_of_mem _ ((List.dropWhile_sublist _).subset member))
    · cases found
  · cases found

theorem isDecimalDigit_of_isDigit (digit : c.isDigit = true) : isDecimalDigit c = true := by
  obtain ⟨-, high⟩ := (Bool.and_eq_true _ _).mp digit
  have ascii : c.toNat < 0x80 := Nat.lt_of_le_of_lt (of_decide_eq_true high) (by decide)
  rw [isDecimalDigit, if_pos ascii, digit]

theorem toNat_of_isAlpha (letter : c.isAlpha = true) : 65 ≤ c.toNat ∧ c.toNat ≤ 122 := by
  rcases (Bool.or_eq_true c.isUpper c.isLower).mp letter with upper | lower
  · obtain ⟨low, high⟩ : c.val ≥ 'A'.val ∧ c.val ≤ 'Z'.val := of_decide_eq_true upper
    exact ⟨low, Nat.le_trans high (by decide)⟩
  · obtain ⟨low, high⟩ := (Bool.and_eq_true (decide (c.val ≥ 'a'.val)) _).mp lower
    exact ⟨Nat.le_trans (by decide) (of_decide_eq_true low), of_decide_eq_true high⟩

theorem isNameChar_of_isNameStart (begins : isNameStart c = true) : isNameChar c = true := by
  have small : c.isAlpha = true ∨ c = '_' → isWordChar c = true := by
    intro letter
    have ascii : c.toNat < 128 := by
      rcases letter with letter | rfl
      · have := toNat_of_isAlpha letter
        omega
      · decide
    rcases letter with letter | rfl
    · simp [isWordChar, ascii, Char.isAlphanum, letter]
    · decide
  simp only [isNameStart, isNameChar, Bool.or_eq_true, decide_eq_true_eq] at begins ⊢
  exact begins.imp_left small

theorem isName_cons (begins : isNameStart c = true) :
    IsName (c :: rest) (c :: rest.takeWhile isNameChar) where
  begins := begins
  letters := by
    intro other member
    rcases List.mem_cons.mp member with rfl | member
    · exact ⟨List.mem_cons_self, isNameChar_of_isNameStart begins⟩
    · exact ⟨List.mem_cons_of_mem _ ((List.takeWhile_sublist _).subset member),
        List.mem_takeWhile_imp member⟩

theorem isName_of_name? {name : List Char} (found : name? cs = some (name, rest)) :
    IsName cs name ∧ ∀ c ∈ rest, c ∈ cs := by
  unfold name? at found
  split at found
  next first cs =>
    split at found
    next begins =>
      cases found
      refine ⟨isName_cons begins, fun c member => ?_⟩
      exact List.mem_cons_of_mem _ ((List.dropWhile_sublist _).subset member)
    next => cases found
  next => cases found

theorem isValue_of_value? (found : value? cs = some value) : IsValue cs value := by
  unfold value? at found
  split at found
  · dsimp only at found
    split at found
    · obtain ⟨c, last, rfl⟩ := Option.map_eq_some_iff.mp found
      intro other member
      cases List.mem_singleton.mp (by simpa using member)
      have inBody := List.mem_reverse.mp (List.mem_of_find?_eq_some last)
      exact ⟨(List.dropLast_sublist _).subset inBody, by simpa using List.find?_some last⟩
    split at found
    · cases found
    next oneLine =>
      cases found
      intro c member
      have inCore : c ∈ trimChars cs.dropLast := by simpa using member
      refine ⟨(List.dropLast_sublist _).subset (mem_of_mem_trimChars inCore), ?_⟩
      rintro rfl
      exact oneLine inCore
  · cases found

theorem IsName.mono {name : List Char} (inside : IsName cs name) (sub : ∀ c ∈ cs, c ∈ wider) :
    IsName wider name :=
  ⟨inside.begins, fun c member => ⟨sub c (inside.letters c member).1, (inside.letters c member).2⟩⟩

theorem IsValue.mono (inside : IsValue cs value) (sub : ∀ c ∈ cs, c ∈ wider) :
    IsValue wider value :=
  fun c member => ⟨sub c (inside c member).1, (inside c member).2⟩

theorem Shape.Within.mono (within : shape.Within cs) (sub : ∀ c ∈ cs, c ∈ wider) :
    shape.Within wider := by
  cases shape with
  | declaration type name value =>
    exact ⟨within.1.mono sub, fun written same => (within.2 written same).mono sub⟩
  | print body newline => exact fun c member => sub c (within c member)
  | assignment name op value => exact ⟨within.1.mono sub, within.2.1, within.2.2.mono sub⟩

theorem within_of_declaration? (found : declaration? cs = some shape) : shape.Within cs := by
  simp only [declaration?, Option.bind_eq_bind, Option.bind_eq_some_iff] at found
  obtain ⟨⟨type, afterType⟩, typed, ⟨name, afterName⟩, named, found⟩ := found
  obtain ⟨isName, inName⟩ := isName_of_name? named
  have inType : ∀ c ∈ afterType, c ∈ cs := by
    obtain ⟨_, _, matched⟩ := List.exists_of_findSome?_eq_some typed
    obtain ⟨rest, after, same⟩ := Option.map_eq_some_iff.mp matched
    cases same
    intro c member
    have inFinal := mem_of_mem_afterWord? after member
    cases final : afterWord? "final" cs with
    | none => simpa [final] using inFinal
    | some rest => exact mem_of_mem_afterWord? final (by simpa [final] using inFinal)
  have isName : IsName cs (String.ofList name).toList := by
    rw [String.toList_ofList]
    exact isName.mono inType
  split at found
  · cases found
    exact ⟨isName, fun _ absent => by cases absent⟩
  next rest after =>
    obtain ⟨value, valued, rfl⟩ := Option.map_eq_some_iff.mp found
    refine ⟨isName, fun written same => ?_⟩
    cases same
    apply (isValue_of_value? valued).mono
    intro c member
    have inRest : c ∈ afterName.dropWhile isBlank := by
      rw [after]
      exact List.mem_cons_of_mem _ member
    exact inType c (inName c ((List.dropWhile_sublist _).subset inRest))
  · cases found

theorem mem_of_mem_printMethod? {newline : Bool} (found : printMethod? cs = some (newline, rest))
    (member : c ∈ rest) : c ∈ cs := by
  simp only [printMethod?, Option.bind_eq_bind, Option.bind_eq_some_iff] at found
  obtain ⟨afterPrint, print, found⟩ := found
  split at found
  next after =>
    cases found
    exact mem_of_mem_after? print (mem_of_mem_after? after member)
  next =>
    cases found
    exact mem_of_mem_after? print member

theorem within_of_print? (found : print? cs = some shape) : shape.Within cs := by
  simp only [print?, Option.bind_eq_bind, Option.bind_eq_some_iff] at found
  obtain ⟨⟨newline, afterMethod⟩, method, opened, bracket, closed, _, found⟩ := found
  split at found
  · cases found
    intro c member
    rw [String.toList_ofList] at member
    have inOpened := (List.dropWhile_sublist _).subset (mem_of_mem_stringLiteral? member)
    have inMethod := (List.dropWhile_sublist _).subset (mem_of_mem_after? bracket inOpened)
    exact mem_of_mem_printMethod? method inMethod
  · cases found

theorem within_of_assignment? (found : assignment? cs = some shape) : shape.Within cs := by
  simp only [assignment?, Option.bind_eq_bind, Option.bind_eq_some_iff] at found
  obtain ⟨⟨name, afterName⟩, named, ⟨op, afterOp⟩, operator, value, valued, found⟩ := found
  cases found
  obtain ⟨isName, inName⟩ := isName_of_name? named
  obtain ⟨known, present, matched⟩ := List.exists_of_findSome?_eq_some operator
  obtain ⟨rest, after, same⟩ := Option.map_eq_some_iff.mp matched
  cases same
  rw [← @String.toList_ofList name] at isName
  refine ⟨isName, present, (isValue_of_value? valued).mono ?_⟩
  intro c member
  exact inName c ((List.dropWhile_sublist _).subset (mem_of_mem_after? after member))

theorem within_of_shape? {text : String} (found : shape? text = some shape) :
    shape.Within text.toList := by
  simp only [shape?, Option.orElse_eq_orElse, Option.orElse_eq_or, Option.or_eq_some_iff] at found
  have within : shape.Within (trimChars text.toList) := by
    rcases found with declared | ⟨_, printed | ⟨_, assigned⟩⟩
    · exact within_of_declaration? declared
    · exact within_of_print? printed
    · exact within_of_assignment? assigned
  exact within.mono fun c => mem_of_mem_trimChars

def Token.body : Token → List Char
  | number digits _ => digits
  | word name => name
  | other c => [c]

/-- A token is a part of the value it was read from. -/
structure Token.Within (cs : List Char) (token : Token) : Prop where
  letters : ∀ c ∈ token.body, c ∈ cs
  named : ∀ name, token = .word name → IsName cs name

theorem Token.Within.cons {token : Token} (within : token.Within cs) (c : Char) :
    token.Within (c :: cs) where
  letters := fun other member => List.mem_cons_of_mem c (within.letters other member)
  named := fun name same => (within.named name same).mono fun _ => List.mem_cons_of_mem c

theorem within_of_mem_tokensFrom {skip : Nat} {inWord : Bool} {token : Token}
    (member : token ∈ tokensFrom skip inWord cs) : token.Within cs := by
  induction cs generalizing skip inWord with
  | nil => cases member
  | cons c cs ih =>
    unfold tokensFrom at member
    split at member
    · exact (ih member).cons c
    dsimp only at member
    split at member
    next n suffix _ _ =>
      rcases List.mem_cons.mp member with rfl | member
      · exact ⟨fun other inside => List.mem_of_mem_take inside, fun name same => by cases same⟩
      · exact (ih member).cons c
    split at member
    next begins =>
      rcases List.mem_cons.mp member with rfl | member
      · refine ⟨fun other inside => ((isName_cons begins).letters other inside).1, ?_⟩
        intro name same
        cases same
        exact isName_cons begins
      · exact (ih member).cons c
    · rcases List.mem_cons.mp member with rfl | member
      · refine ⟨fun other inside => ?_, fun name same => by cases same⟩
        exact List.mem_singleton.mp inside ▸ List.mem_cons_self
      · exact (ih member).cons c

theorem tokens_cons (c : Char) (cs : List Char) :
    ∃ token rest, tokens (c :: cs) = token :: rest ∧ token.body.head? = some c := by
  unfold tokens tokensFrom
  dsimp only
  split
  · exact ⟨_, _, rfl, rfl⟩
  split
  · exact ⟨_, _, rfl, rfl⟩
  · exact ⟨_, _, rfl, rfl⟩

def Token.spelled (spell : String → String) : Token → String
  | number digits _ => String.ofList digits
  | word name => spell (String.ofList name)
  | other c => String.ofList [c]

theorem respelled?_cases {spell : String → String} {written : String}
    (found : respelled? spell value = some written) :
    let cs := trimChars value.toList
    (written = String.ofList cs ∧ (isStringLiteral cs = true ∨ isCharLiteral cs = true)) ∨
      (cs ≠ [] ∧ (∀ c ∈ cs, isArithmeticChar c = true) ∧
        written = String.join ((tokens cs).map (Token.spelled spell))) := by
  intro cs
  have noQuote : cs.all isArithmeticChar = true → ∀ quote ∈ ['"', '\''], cs.head? ≠ some quote := by
    intro arithmetic quote isQuote begins
    have inside : quote ∈ cs := List.mem_of_head? begins
    have included := List.all_eq_true.mp arithmetic quote inside
    have excluded : isArithmeticChar quote = false := by
      simp only [List.mem_cons, List.not_mem_nil, or_false] at isQuote
      rcases isQuote with rfl | rfl
      · decide
      · decide
    exact Bool.false_ne_true (excluded.symm.trans included)
  unfold respelled? at found
  dsimp only at found
  split at found
  next simple =>
    simp only [isSimple, Bool.or_eq_true, Bool.and_eq_true] at simple
    split at found
    next quoted =>
      cases found
      refine .inl ⟨rfl, simple.resolve_right ?_⟩
      rintro ⟨-, arithmetic⟩
      simp only [Bool.or_eq_true, decide_eq_true_eq] at quoted
      rcases quoted with quoted | quoted
      · exact noQuote arithmetic _ (by simp) quoted
      · exact noQuote arithmetic _ (by simp) quoted
    next plain =>
      cases found
      simp only [Bool.or_eq_true, decide_eq_true_eq, not_or] at plain
      have noLiteral : ¬(isStringLiteral cs = true ∨ isCharLiteral cs = true) := by
        rintro (literal | literal)
        · exact plain.1 (ends_of_isStringLiteral literal).1
        · exact plain.2 (ends_of_isCharLiteral literal).1
      obtain ⟨filled, arithmetic⟩ := simple.resolve_left noLiteral
      refine .inr ⟨by simpa using filled, List.all_eq_true.mp arithmetic, ?_⟩
      rfl
  · cases found

end Degraded

end Retarget
