import Retarget.Proofs.Lexis
import Retarget.Proofs.Text
import Retarget.Render.PythonExpr

/-!
# The operators that a Python text shows

Which operators of a text stand outside all brackets. These are the ones that an operator next to
the text can compete with.
-/

namespace Retarget.Python

open Text
open List (all_iff_forall_prop mem_cons not_mem_nil)
open Option (bind_some map_map map_some)
open String (ofList toList)

variable {op : String} {token : Token} {sign c : Char} {tokens : List Token}

variable {shown : List String}

def signs : List String :=
  ["[", "]", "(", ")", "\x7b", "\x7d", ".", ",", ":", ":=", ";", "@", "=", "->", "...", "+", "-",
    "*", "**", "/", "//", "%", "<<", ">>", "&", "|", "^", "~", "<", ">", "<=", ">=", "==", "!=",
    "+=", "-=", "*=", "/=", "//=", "%=", "@=", "&=", "|=", "^=", ">>=", "<<=", "**="]

/-- Whether a character continues a number: also a sign does after the mark of an exponent, which
hexadecimal numbers do not have. -/
def continuesNumber (run : List Char) (c : Char) : Bool :=
  isWordChar c || c = '.' ||
    ((c = '+' || c = '-') && run.head?.any (fun mark => mark = 'e' || mark = 'E') &&
      !run.any fun mark => mark = 'x' || mark = 'X')

def lexis : Lexis where
  isWordChar := isWordChar
  continuesNumber := continuesNumber
  introducers := ["r", "R", "u", "U", "b", "B", "f", "F"].map toList
  signs := signs.map toList
  delimiter_not_word := isWordChar_of_mem_delimiters
  delimiter_not_number := fun d member run => by
    simp [continuesNumber, isWordChar_of_mem_delimiters d member, ne_of_mem_delimiters d member]
  bracket_sign := all_iff_forall_prop.mp (by decide)
  bracket_alone := all_iff_forall_prop.mp (by decide)

/-- The words of Python that are neither identifiers nor constants. -/
def keywords : List String :=
  ["and", "as", "assert", "async", "await", "break", "class", "continue", "def", "del", "elif",
    "else", "except", "finally", "for", "from", "global", "if", "import", "in", "is", "lambda",
    "nonlocal", "not", "or", "pass", "raise", "return", "try", "while", "with", "yield"]

def operatorWords : List String := ["and", "or", "not", "if", "else", "in", "is", "lambda"]

def operatorSigns : List String :=
  ["+", "-", "*", "**", "/", "//", "%", "@", "<<", ">>", "&", "|", "^", "<", ">", "<=", ">=",
    "==", "!="]

def unarySigns : List String := ["-", "+", "~"]

/-- How many brackets are open, and whether an operand has just ended. -/
structure Nesting where
  depth : Nat
  ended : Bool
  deriving DecidableEq

def Nesting.operator (nesting : Nesting) (op : String) : List String × Nesting :=
  (if nesting.depth = 0 then [op] else [], { nesting with ended := false })

def signStep (nesting : Nesting) (sign : String) : Option (List String × Nesting) :=
  if sign ∈ ["(", "["] then some ([], ⟨nesting.depth + 1, false⟩)
  else if sign ∈ [")", "]"] then
    if nesting.depth = 0 then none else some ([], ⟨nesting.depth - 1, true⟩)
  else if sign ∈ [",", ":", "."] then some ([], { nesting with ended := false })
  else if nesting.ended then
    if sign ∈ operatorSigns then some (nesting.operator sign) else none
  else if sign ∈ unarySigns then some ([], nesting)
  else none

def tokenStep (nesting : Nesting) : Token → Option (List String × Nesting)
  | .word text =>
    if ofList text ∈ operatorWords then some (nesting.operator (ofList text))
    else some ([], { nesting with ended := true })
  | .number _ | .literal _ => some ([], { nesting with ended := true })
  | .sign text => signStep nesting (ofList text)

def survey (nesting : Nesting) : List Token → Option (List String × Nesting)
  | [] => some ([], nesting)
  | token :: rest =>
    (tokenStep nesting token).bind fun step =>
      (survey step.2 rest).map fun later => (step.1 ++ later.1, later.2)

def operators? (text : String) : Option (List String) := do
  let tokens ← lexis.tokens? text
  let (shown, nesting) ← survey ⟨0, false⟩ tokens
  if nesting.depth = 0 then some shown else none

theorem survey_append (nesting : Nesting) (first rest : List Token) :
    survey nesting (first ++ rest) =
      (survey nesting first).bind fun reached =>
        (survey reached.2 rest).map fun later => (reached.1 ++ later.1, later.2) := by
  induction first generalizing nesting with
  | nil =>
    change survey nesting rest = (survey nesting rest).map fun later => ([] ++ later.1, later.2)
    cases survey nesting rest <;> rfl
  | cons token first ih =>
    simp only [List.cons_append, survey]
    cases tokenStep nesting token with
    | none => rfl
    | some step =>
      simp only [bind_some, ih]
      cases survey step.2 first with
      | none => rfl
      | some reached =>
        simp only [bind_some, map_some, map_map]
        congr 1
        funext later
        simp

/-! ## Tokens -/

def cutAt? (cuts : Nesting → Token → Bool) (nesting : Nesting) :
    List Token → Option (List Token × List Token)
  | [] => none
  | token :: rest =>
    if cuts nesting token then some ([], rest)
    else
      (tokenStep nesting token).bind fun step =>
        (cutAt? cuts step.2 rest).map fun cut => (token :: cut.1, cut.2)

/-- A comma or a colon outside brackets ends what stands before it. -/
def separates (nesting : Nesting) (token : Token) : Bool :=
  nesting.depth = 0 && token ∈ [.sign [','], .sign [':']]

theorem cutAt?_append (cuts : Nesting → Token → Bool) (nesting : Nesting)
    (first rest : List Token) : cutAt? cuts nesting (first ++ rest) =
      ((cutAt? cuts nesting first).map fun cut => (cut.1, cut.2 ++ rest)).or
        ((survey nesting first).bind fun reached =>
          (cutAt? cuts reached.2 rest).map fun cut => (first ++ cut.1, cut.2)) := by
  induction first generalizing nesting with
  | nil =>
    change cutAt? cuts nesting rest = (cutAt? cuts nesting rest).map fun cut => (cut.1, cut.2)
    cases cutAt? cuts nesting rest <;> rfl
  | cons token first ih =>
    simp only [List.cons_append, cutAt?, survey]
    split
    · rfl
    · cases tokenStep nesting token with
      | none => rfl
      | some step =>
        simp only [bind_some, ih]
        cases cutAt? cuts step.2 first with
        | some cut => rfl
        | none =>
          cases survey step.2 first with
          | none => rfl
          | some reached =>
            simp only [Option.map_none, Option.none_or, bind_some, map_some,
              map_map]
            rfl

theorem cutAt?_behind {cuts : Nesting → Token → Bool} {nesting after : Nesting}
    {first : List Token} (uncut : cutAt? cuts nesting first = none)
    (surveyed : survey nesting first = some (shown, after)) (rest : List Token) :
    cutAt? cuts nesting (first ++ rest) =
      (cutAt? cuts after rest).map fun cut => (first ++ cut.1, cut.2) := by
  rw [cutAt?_append, uncut, surveyed]
  rfl

/-- Tokens that are an operand with these operators outside brackets, and that no sign parts
there. -/
structure Shows (tokens : List Token) (shown : List String) : Prop where
  surveyed : ∀ depth,
    survey ⟨depth, false⟩ tokens = some (if depth = 0 then shown else [], ⟨depth, true⟩)
  unparted : ∀ depth, cutAt? separates ⟨depth, false⟩ tokens = none

structure Fills (tokens : List Token) : Prop where
  surveyed : ∀ depth, ∃ ended, survey ⟨depth + 1, false⟩ tokens = some ([], ⟨depth + 1, ended⟩)
  unparted : ∀ depth, cutAt? separates ⟨depth + 1, false⟩ tokens = none

def isOperand : Token → Bool
  | .word text => ofList text ∉ keywords
  | .number _ | .literal _ => true
  | .sign _ => false

theorem not_mem_operatorWords {word : String} (identifier : word ∉ keywords) :
    word ∉ operatorWords := by
  intro member
  have isKeyword : ∀ word ∈ operatorWords, word ∈ keywords := by decide
  exact identifier (isKeyword word member)

theorem tokenStep_operand (operand : isOperand token = true) (nesting : Nesting) :
    tokenStep nesting token = some ([], { nesting with ended := true }) := by
  cases token with
  | word text =>
    have noOperator := not_mem_operatorWords (of_decide_eq_true operand)
    simp [tokenStep, noOperator]
  | number text | literal text => rfl
  | sign text => cases operand

theorem not_separates_of_operates
    (operates : ∀ depth, tokenStep ⟨depth, true⟩ token =
      some (if depth = 0 then [op] else [], ⟨depth, false⟩))
    (depth : Nat) : separates ⟨depth, true⟩ token = false := by
  refine Bool.and_eq_false_imp.mpr fun _ => decide_eq_false fun separator => ?_
  have shown := operates 0
  simp only [mem_cons, not_mem_nil, or_false] at separator
  obtain rfl | rfl := separator <;> cases shown

namespace Shows

variable {first second : List Token} {shown others : List String}

theorem operand {token : Token} (operand : isOperand token = true) : Shows [token] [] where
  surveyed := by
    intro depth
    simp [survey, tokenStep_operand operand]
  unparted := by
    intro depth
    have whole : separates ⟨depth, false⟩ token = false := by
      cases token with
      | word | number | literal => simp [separates]
      | sign text => cases operand
    simp [cutAt?, whole, tokenStep_operand operand]

theorem fills (shows : Shows first shown) : Fills first where
  surveyed depth := ⟨true, shows.surveyed (depth + 1)⟩
  unparted depth := shows.unparted (depth + 1)

theorem unparted_append (shows : Shows first shown) {depth : Nat}
    (whole : cutAt? separates ⟨depth, true⟩ second = none) :
    cutAt? separates ⟨depth, false⟩ (first ++ second) = none := by
  rw [cutAt?_behind (shows.unparted depth) (shows.surveyed depth), whole]
  rfl

theorem joined
    (operates : ∀ depth, tokenStep ⟨depth, true⟩ token =
      some (if depth = 0 then [op] else [], ⟨depth, false⟩))
    (before : Shows first shown) (behind : Shows second others) :
    Shows (first ++ token :: second) (shown ++ op :: others) where
  surveyed := by
    intro depth
    rw [survey_append, before.surveyed depth]
    simp only [bind_some, survey, operates depth, behind.surveyed depth, map_some]
    split <;> simp
  unparted := by
    intro depth
    refine before.unparted_append ?_
    simp [cutAt?, not_separates_of_operates operates, operates depth, behind.unparted]

theorem negated (shows : Shows first shown) :
    Shows (.word "not".toList :: first) ("not" :: shown) := by
  have operates (depth : Nat) : tokenStep ⟨depth, false⟩ (.word "not".toList) =
      some (if depth = 0 then ["not"] else [], ⟨depth, false⟩) := rfl
  refine ⟨fun depth => ?_, fun depth => ?_⟩
  · simp only [survey, operates, bind_some, shows.surveyed depth, map_some]
    split <;> simp
  · have whole : separates ⟨depth, false⟩ (.word "not".toList) = false := Bool.and_false _
    rw [cutAt?, whole, operates]
    simp [shows.unparted]

theorem signed {sign : List Char} (unary : ofList sign ∈ unarySigns)
    (shows : Shows first shown) : Shows (.sign sign :: first) shown := by
  have facts : ∀ text ∈ unarySigns, text ∉ ["(", "["] ∧ text ∉ [")", "]"] ∧
      text ∉ [",", ":", "."] := by decide
  have others := facts _ unary
  have passes (depth : Nat) : tokenStep ⟨depth, false⟩ (.sign sign) = some ([], ⟨depth, false⟩) := by
    simp only [tokenStep, signStep, others, if_false, unary, if_true, Bool.false_eq_true]
  have whole (depth : Nat) : separates ⟨depth, false⟩ (.sign sign) = false := by
    refine Bool.and_eq_false_imp.mpr fun _ => decide_eq_false fun separator => ?_
    simp only [mem_cons, not_mem_nil, or_false, Token.sign.injEq] at separator
    obtain rfl | rfl := separator <;> exact absurd others.2.2 (by decide)
  refine ⟨fun depth => ?_, fun depth => ?_⟩
  · simp only [survey, passes, bind_some, shows.surveyed depth, map_some,
      List.nil_append]
  · simp [cutAt?, whole, passes, shows.unparted]

def bracketPairs : List (List Char × List Char) := [(['('], [')']), (['['], [']'])]

theorem round_mem : (['('], [')']) ∈ bracketPairs := by decide

theorem square_mem : (['['], [']']) ∈ bracketPairs := by decide

section Brackets

variable {opens closes : List Char} (pair : (opens, closes) ∈ bracketPairs)

include pair

theorem survey_bracketed (inside : Fills first) (depth : Nat) (ended : Bool) :
    survey ⟨depth, ended⟩ (.sign opens :: (first ++ [.sign closes])) = some ([], ⟨depth, true⟩) ∧
      cutAt? separates ⟨depth, ended⟩ (.sign opens :: (first ++ [.sign closes])) = none := by
  obtain ⟨endedInside, filled⟩ := inside.surveyed depth
  have enters : tokenStep ⟨depth, ended⟩ (.sign opens) = some ([], ⟨depth + 1, false⟩) := by
    simp only [bracketPairs, mem_cons, Prod.mk.injEq, not_mem_nil, or_false] at pair
    obtain ⟨rfl, rfl⟩ | ⟨rfl, rfl⟩ := pair <;> rfl
  have leaves : tokenStep ⟨depth + 1, endedInside⟩ (.sign closes) = some ([], ⟨depth, true⟩) := by
    simp only [bracketPairs, mem_cons, Prod.mk.injEq, not_mem_nil, or_false] at pair
    obtain ⟨rfl, rfl⟩ | ⟨rfl, rfl⟩ := pair <;> rfl
  have whole : separates ⟨depth, ended⟩ (.sign opens) = false := by
    simp only [bracketPairs, mem_cons, Prod.mk.injEq, not_mem_nil, or_false] at pair
    obtain ⟨rfl, rfl⟩ | ⟨rfl, rfl⟩ := pair <;> simp [separates]
  refine ⟨by simp [survey, enters, survey_append, filled, leaves], ?_⟩
  rw [cutAt?, whole, enters]
  simp [cutAt?_behind (inside.unparted depth) filled, cutAt?, separates, leaves]

theorem bracketed (inside : Fills first) : Shows (.sign opens :: (first ++ [.sign closes])) [] where
  surveyed := by
    intro depth
    rw [(survey_bracketed pair inside _ _).1]
    simp
  unparted _ := (survey_bracketed pair inside _ _).2

theorem applied (shows : Shows first shown) (inside : Fills second) :
    Shows (first ++ .sign opens :: (second ++ [.sign closes])) shown where
  surveyed := by
    intro depth
    rw [survey_append, shows.surveyed depth, bind_some, (survey_bracketed pair inside _ _).1]
    simp
  unparted _ := shows.unparted_append (survey_bracketed pair inside _ _).2

end Brackets

theorem dotted {name : List Char} (plain : ofList name ∉ operatorWords)
    (shows : Shows first shown) : Shows (first ++ [.sign ['.'], .word name]) shown := by
  have points (depth : Nat) : tokenStep ⟨depth, true⟩ (.sign ['.']) = some ([], ⟨depth, false⟩) := rfl
  have named (depth : Nat) : tokenStep ⟨depth, false⟩ (.word name) = some ([], ⟨depth, true⟩) := by
    simp [tokenStep, plain]
  refine ⟨fun depth => ?_, fun depth => shows.unparted_append ?_⟩
  · rw [survey_append, shows.surveyed depth]
    simp [survey, points, named]
  · simp [cutAt?, separates, points]

theorem renumbered {digits others : List Char} (shows : Shows (first ++ [.number digits]) shown) :
    Shows (first ++ [.number others]) shown where
  surveyed := by
    intro depth
    rw [← shows.surveyed depth, survey_append, survey_append]
    rfl
  unparted := by
    intro depth
    have whole := shows.unparted depth
    have alone (nesting : Nesting) (digits : List Char) :
        cutAt? separates nesting [.number digits] = none := by simp [cutAt?, separates, tokenStep]
    simp only [cutAt?_append, alone, Option.or_eq_none_iff, Option.map_eq_none_iff] at whole ⊢
    exact whole

end Shows

namespace Fills

variable {first second : List Token} {shown others : List String}

theorem nil : Fills [] where
  surveyed _ := ⟨false, rfl⟩
  unparted _ := rfl

theorem separated (separator : sign ∈ [',', ':']) (before : Shows first shown)
    (behind : Fills second) : Fills (first ++ .sign [sign] :: second) := by
  have passes (depth : Nat) :
      tokenStep ⟨depth + 1, true⟩ (.sign [sign]) = some ([], ⟨depth + 1, false⟩) := by
    simp only [mem_cons, not_mem_nil, or_false] at separator
    obtain rfl | rfl := separator <;> rfl
  refine ⟨fun depth => ?_, fun depth => before.unparted_append ?_⟩
  · obtain ⟨ended, filled⟩ := behind.surveyed depth
    refine ⟨ended, ?_⟩
    rw [survey_append, before.surveyed (depth + 1)]
    simp [survey, passes, filled]
  · simp [cutAt?, separates, passes, behind.unparted]

end Fills

/-! ## Texts -/

def lengthening : List Char := ['=', '>']

def Prints (text : String) (shown : List String) : Prop :=
  ∃ tokens c rest, text.toList = c :: rest ∧ c ∉ lengthening ∧
    lexis.Spells text.toList tokens ∧ Shows tokens shown

def Inside (text : String) : Prop :=
  ∃ tokens, lexis.Spells text.toList tokens ∧ Fills tokens

def isName (name : List Char) : Bool :=
  lexis.scan .between ('.' :: name) = some ([.sign ['.']], .word name.reverse) &&
    name.all isWordChar && ofList name ∉ operatorWords

theorem opensSign_of_not_lengthening (known : sign ∈ ['-', '+', '~', ':']) (ends : c ∉ lengthening) :
    lexis.opensSign [c, sign] = false := by
  have longer : ∀ sign ∈ ['-', '+', '~', ':'], ∀ other ∈ lexis.signs, other.head? = some sign →
      other.tail.head?.all (· ∈ lengthening) = true :=
    all_iff_forall_prop.mp (by decide)
  refine List.any_eq_false.mpr fun other member opens => ends ?_
  obtain ⟨rest, rfl⟩ := List.isPrefixOf_iff_prefix.mp opens
  exact of_decide_eq_true (longer sign known _ member rfl)

theorem scan_number {rest : List Char} (run : List Char) (words : rest.all isWordChar = true) :
    lexis.scan (.number run) rest = some ([], .number (rest.reverse ++ run)) := by
  induction rest generalizing run with
  | nil => rfl
  | cons c rest ih =>
    obtain ⟨isWord, others⟩ := Bool.and_eq_true_iff.mp (List.all_cons ▸ words)
    have continues : lexis.advance (.number run) c = some ([], .number (c :: run)) := by
      have more : lexis.continuesNumber run c = true := by
        change continuesNumber run c = true
        simp [continuesNumber, isWord]
      simp only [Lexis.advance, more, if_true]
    simp [Lexis.scan, continues, ih (c :: run) others, Lexis.after]

theorem closing_of_signStep {nesting after : Nesting} {sign : String}
    (steps : signStep nesting sign = some (shown, after)) (ended : after.ended = true) :
    sign ∈ [")", "]"] := by
  unfold signStep at steps
  split at steps
  · cases steps
    cases ended
  · split at steps
    next closes => exact closes
    next =>
      split at steps
      · cases steps
        cases ended
      · split at steps
        · split at steps
          · cases steps
            cases ended
          · cases steps
        next waits =>
          split at steps
          · cases steps
            exact (waits ended).elim
          · cases steps

theorem closing_of_shows {sign : List Char}
    (shows : Shows (tokens ++ [.sign sign]) shown) : ofList sign ∈ [")", "]"] := by
  have surveyed := shows.surveyed 0
  rw [survey_append, Option.bind_eq_some_iff] at surveyed
  obtain ⟨reached, _, surveyed⟩ := surveyed
  simp only [survey, tokenStep, Option.map_eq_some_iff, Option.bind_eq_some_iff] at surveyed
  obtain ⟨_, ⟨step, steps, later, same, rfl⟩, ends⟩ := surveyed
  cases same
  have ended : step.2.ended = true := by
    have second := congrArg Prod.snd ends
    rw [second]
  exact closing_of_signStep steps ended

theorem turns_at_point {read ended : List Token} {p : Progress}
    (ends : lexis.pending? p = some ended) (shows : Shows (read ++ ended) shown)
    (noNumber : ∀ run, p ≠ .number run) : lexis.advance p '.' = lexis.turn p '.' := by
  cases p with
  | between | closed run => rfl
  | word run =>
    have noWord : lexis.isWordChar '.' = false := by decide
    have noQuote : Lexis.isQuote '.' = false := by decide
    simp [Lexis.advance, noWord, noQuote]
  | number run => exact (noNumber run rfl).elim
  | literal quote escaped run => cases ends
  | sign run =>
    simp only [Lexis.pending?] at ends
    split at ends
    · cases ends
      have closes := closing_of_shows shows
      have bracket : ∃ b ∈ brackets, run = [b] := by
        simp only [mem_cons, not_mem_nil, or_false] at closes
        obtain closes | closes := closes
        · have chars : run.reverse = [')'] := String.ofList_injective closes
          exact ⟨')', by decide, List.reverse_eq_iff.mp chars⟩
        · have chars : run.reverse = [']'] := String.ofList_injective closes
          exact ⟨']', by decide, List.reverse_eq_iff.mp chars⟩
      obtain ⟨b, member, rfl⟩ := bracket
      have alone := lexis.opensSign_bracket member '.'
      have noPoint := Lexis.Spells.not_point member
      simp [Lexis.advance, alone, noPoint]
    · cases ends

theorem spells_dotted {text name : List Char}
    (spells : lexis.Spells text tokens) (shows : Shows tokens shown) (named : isName name = true) :
    ∃ longer, lexis.Spells (text ++ '.' :: name) longer ∧ Shows longer shown := by
  obtain ⟨read, p, ended, scanned, ends, rfl, steady⟩ := spells
  simp only [isName, Bool.and_eq_true, decide_eq_true_eq] at named
  obtain ⟨⟨points, words⟩, plain⟩ := named
  by_cases number : ∃ run, p = .number run
  · -- The point and the name are taken for a part of the number.
    obtain ⟨run, rfl⟩ := number
    cases ends
    refine ⟨read ++ [.number (name.reverse ++ '.' :: run).reverse], ?_, shows.renumbered⟩
    have grows : lexis.scan (.number run) ('.' :: name) =
        some ([], .number (name.reverse ++ '.' :: run)) := by
      have takes : lexis.advance (.number run) '.' = some ([], .number ('.' :: run)) := by
        have more : lexis.continuesNumber run '.' = true := by
          change continuesNumber run '.' = true
          simp [continuesNumber]
        simp only [Lexis.advance, more, if_true]
      simp [Lexis.scan, takes, scan_number ('.' :: run) words]
    refine ⟨read, .number (name.reverse ++ '.' :: run), _, ?_, rfl, rfl, ?_⟩
    · rw [Lexis.scan_append, scanned, bind_some, grows]
      simp [Lexis.after]
    · exact lexis.steady_of_not_sign rfl (by simp [Token.isSign])
  · refine ⟨(read ++ ended) ++ [.sign ['.'], .word name], ?_, shows.dotted plain⟩
    have turns := turns_at_point ends shows fun run same => number ⟨run, same⟩
    refine ⟨read ++ ended ++ [.sign ['.']], .word name.reverse, [.word name], ?_, ?_, ?_, ?_⟩
    · rw [Lexis.scan_append, scanned, bind_some, lexis.scan_of_turn turns ends, points]
      simp [Lexis.after]
    · simp [Lexis.pending?]
    · simp
    · exact lexis.steady_of_not_sign rfl (by simp [Token.isSign])

def IsOperator (op : String) : Prop :=
  ∃ token, lexis.scan .between (op.toList ++ [' ']) = some ([token], .between) ∧
    ∀ depth, tokenStep ⟨depth, true⟩ token = some (if depth = 0 then [op] else [], ⟨depth, false⟩)

theorem isOperator_of_sign (sign : op ∈ operatorSigns) : IsOperator op := by
  have reads : ∀ op ∈ operatorSigns,
      lexis.scan .between (op.toList ++ [' ']) = some ([.sign op.toList], .between) := by decide
  have others : ∀ op ∈ operatorSigns, op ∉ ["(", "["] ∧ op ∉ [")", "]"] ∧ op ∉ [",", ":", "."] := by
    decide
  refine ⟨.sign op.toList, reads op sign, fun depth => ?_⟩
  obtain ⟨noOpening, noClosing, noSeparator⟩ := others op sign
  simp only [tokenStep, String.ofList_toList, signStep, noOpening, noClosing, noSeparator, sign,
    if_false, if_true, Nesting.operator]

theorem isOperator_of_word (word : op ∈ operatorWords) : IsOperator op := by
  have reads : ∀ op ∈ operatorWords,
      lexis.scan .between (op.toList ++ [' ']) = some ([.word op.toList], .between) := by decide
  refine ⟨.word op.toList, reads op word, fun depth => ?_⟩
  simp only [tokenStep, String.ofList_toList, word, if_true, Nesting.operator]

namespace Inside

variable {text start stop : String} {shown others : List String}

theorem nil : Inside "" := by
  refine ⟨[], ⟨[], .between, [], rfl, rfl, rfl, ?_⟩, .nil⟩
  exact lexis.steady_of_not_sign rfl (by simp)

theorem bracketed (inside : Inside text) : Prints (bracketed text) [] := by
  obtain ⟨tokens, spells, fills⟩ := inside
  have opened : (Text.bracketed text).toList = '(' :: (text.toList ++ [')']) := by
    simp [Text.bracketed]
  exact ⟨_, _, _, opened, by decide, opened ▸ spells.bracketed, .bracketed Shows.round_mem fills⟩

theorem listed (inside : Inside text) : Prints ("[" ++ text ++ "]") [] := by
  obtain ⟨tokens, spells, fills⟩ := inside
  have opened : ("[" ++ text ++ "]").toList = '[' :: (text.toList ++ [']']) := by simp
  refine ⟨_, _, _, opened, by decide, ?_, .bracketed Shows.square_mem fills⟩
  rw [opened]
  refine .opened (by decide) (by simp) ?_
  exact spells.followed (by decide) (.closing (by decide))

end Inside

namespace Prints

variable {text left right other : String} {shown others : List String}

theorem operators? (prints : Prints text shown) : Python.operators? text = some shown := by
  obtain ⟨tokens, _, _, _, _, spells, shows⟩ := prints
  have cut := Lexis.tokens?_of_spells spells
  simp [Python.operators?, cut, shows.surveyed 0]

theorem inside (prints : Prints text shown) : Inside text := by
  obtain ⟨tokens, _, _, _, _, spells, shows⟩ := prints
  exact ⟨tokens, spells, shows.fills⟩

theorem leaf (cut : lexis.operand? text = some token) (operand : isOperand token = true) :
    Prints text [] := by
  obtain ⟨spells, -⟩ := Lexis.spells_of_operand? cut
  have signs : ∀ c ∈ lengthening, lexis.start? c = some (.sign [c]) ∧ c ≠ '.' :=
    all_iff_forall_prop.mp (by decide)
  obtain ⟨c, rest, start, begins⟩ := Lexis.exists_head_of_operand? cut signs
  exact ⟨[token], c, rest, start, begins, spells, .operand operand⟩

theorem respelled (prints : Prints text shown) (same : other.toList = text.toList) :
    Prints other shown :=
  String.toList_injective same ▸ prints

theorem extended (prints : Prints text shown) {longer : String} (tail : List Char)
    (whole : longer.toList = text.toList ++ tail) (spells : lexis.Spells (text.toList ++ tail) tokens)
    (shows : Shows tokens others) : Prints longer others := by
  obtain ⟨_, c, rest, start, begins, _, _⟩ := prints
  refine ⟨tokens, c, rest ++ tail, ?_, begins, ?_, shows⟩
  · rw [whole, start]
    rfl
  · rw [whole]
    exact spells

theorem applied (prints : Prints text shown) (inside : Inside other) :
    Prints (applied text other) shown := by
  obtain ⟨tokens, _, _, _, _, spells, shows⟩ := id prints
  obtain ⟨inner, innerSpells, fills⟩ := inside
  refine prints.extended ('(' :: (other.toList ++ [')'])) (by simp [Python.applied, Text.bracketed])
    ?_ (shows.applied Shows.round_mem fills)
  refine spells.followed (by decide) (.opened (by decide) (by simp) ?_)
  exact innerSpells.followed (by decide) (.closing (by decide))

theorem subscript (prints : Prints text shown) (inside : Inside other) :
    Prints (text ++ "[" ++ other ++ "]") shown := by
  obtain ⟨tokens, _, _, _, _, spells, shows⟩ := id prints
  obtain ⟨inner, innerSpells, fills⟩ := inside
  exact prints.extended ('[' :: (other.toList ++ [']'])) (by simp) (spells.subscript innerSpells)
    (shows.applied Shows.square_mem fills)

theorem dotted (prints : Prints text shown) {name : String} (named : isName name.toList = true) :
    Prints (text ++ "." ++ name) shown := by
  obtain ⟨tokens, _, _, _, _, spells, shows⟩ := id prints
  obtain ⟨longer, longerSpells, longerShows⟩ := spells_dotted spells shows named
  exact prints.extended ('.' :: name.toList) (by simp) longerSpells longerShows

theorem spaced (operator : IsOperator op) (before : Prints left shown)
    (behind : Prints right others) :
    Prints (left ++ " " ++ op ++ " " ++ right) (shown ++ op :: others) := by
  obtain ⟨token, reads, operates⟩ := operator
  obtain ⟨tokens, _, _, _, _, spells, shows⟩ := id before
  obtain ⟨next, _, _, _, _, nextSpells, nextShows⟩ := behind
  exact before.extended (' ' :: (op.toList ++ ' ' :: right.toList)) (by simp)
    (spells.spaced reads nextSpells) (shows.joined operates nextShows)

theorem negated (prints : Prints text shown) : Prints ("not " ++ text) ("not" :: shown) := by
  obtain ⟨tokens, _, _, _, _, spells, shows⟩ := prints
  have reads : lexis.scan .between ("not".toList ++ [' ']) =
      some ([.word "not".toList], .between) := by decide
  have opened : ("not " ++ text).toList = "not".toList ++ ' ' :: text.toList := by simp
  refine ⟨_, 'n', 'o' :: 't' :: ' ' :: text.toList, ?_, by decide, ?_, shows.negated⟩
  · rw [opened]
    rfl
  · rw [opened]
    exact .led reads spells

theorem signed (unary : sign ∈ ['-', '+', '~']) (prints : Prints text shown) :
    Prints (ofList [sign] ++ text) shown := by
  obtain ⟨tokens, c, rest, start, begins, spells, shows⟩ := prints
  have alone : ∀ sign ∈ ['-', '+', '~'], lexis.scan .between [sign] = some ([], .sign [sign]) ∧
      [sign] ∈ lexis.signs ∧ [sign] ≠ ['.'] ∧ sign ∈ ['-', '+', '~', ':'] ∧ sign ∉ lengthening ∧
      ofList [sign] ∈ unarySigns :=
    all_iff_forall_prop.mp (by decide)
  obtain ⟨scans, member, noPoint, known, leads, isUnary⟩ := alone sign unary
  have opened : (ofList [sign] ++ text).toList = sign :: c :: rest := by simp [start]
  refine ⟨.sign [sign] :: tokens, sign, c :: rest, opened, leads, ?_, .signed isUnary shows⟩
  rw [opened]
  rw [start] at spells
  exact spells.signed [sign] scans member noPoint (opensSign_of_not_lengthening known begins)

end Prints

namespace Inside

variable {text start stop : String} {shown others : List String}

theorem separated {rest : List Char} (separator : sign ∈ [',', ':']) (before : Prints start shown)
    (spells : lexis.Spells (sign :: rest) (.sign [sign] :: tokens)) (fills : Fills tokens)
    (whole : text.toList = start.toList ++ sign :: rest) : Inside text := by
  obtain ⟨first, _, _, _, _, firstSpells, shows⟩ := before
  have delimit : ∀ sign ∈ [',', ':'], sign ∈ delimiters := all_iff_forall_prop.mp (by decide)
  refine ⟨first ++ .sign [sign] :: tokens, ?_, .separated separator shows fills⟩
  rw [whole]
  exact firstSpells.followed (delimit sign separator) spells

theorem comma (before : Prints start shown) (behind : Inside text) :
    Inside (start ++ ", " ++ text) := by
  obtain ⟨tokens, spells, fills⟩ := behind
  have led := spells.blank.signed [','] (by decide) (by decide) (by decide) (by decide)
  exact separated (by decide) before led fills (by simp)

theorem join {texts : List String} (printed : ∀ text ∈ texts, ∃ shown, Prints text shown) :
    Inside (join ", " texts) := by
  cases texts with
  | nil => exact .nil
  | cons text texts =>
    refine Text.join_cons ?_ ?_ printed
    · rintro _ ⟨_, prints⟩
      exact prints.inside
    · rintro _ _ ⟨_, prints⟩ others
      exact comma prints others

theorem colon (before : Prints start shown) : Inside (start ++ ":") := by
  have alone : lexis.Spells [':'] [.sign [':']] := by
    refine ⟨[], .sign [':'], [.sign [':']], by decide, by decide, rfl, ?_⟩
    exact all_iff_forall_prop.mp (by decide)
  exact separated (by decide) before alone .nil (by simp)

theorem slice (before : Prints start shown) (behind : Prints stop others) :
    Inside (start ++ ":" ++ stop) := by
  obtain ⟨tokens, c, rest, begins, leads, spells, shows⟩ := behind
  rw [begins] at spells
  have led := spells.signed [':'] (by decide) (by decide) (by decide)
    (opensSign_of_not_lengthening (by decide) leads)
  exact separated (by decide) before led shows.fills (by simp [begins])

end Inside

theorem isWordChar_of_isDigit (digit : c.isDigit = true) : isWordChar c = true := by
  have small : c.toNat < 0x80 := by
    simp only [Char.isDigit, Bool.and_eq_true, decide_eq_true_eq, ge_iff_le] at digit
    have bound := UInt32.le_iff_toNat_le.mp digit.2
    exact Nat.lt_of_le_of_lt bound (by decide)
  simp [isWordChar, small, Char.isAlphanum, digit]

theorem start?_of_isDigit (digit : c.isDigit = true) : lexis.start? c = some (.number [c]) := by
  have others : c.isWhitespace = false ∧ Lexis.isQuote c = false := by
    constructor
    · simp only [Char.isWhitespace, Bool.or_eq_false_iff, decide_eq_false_iff_not]
      refine ⟨⟨⟨?_, ?_⟩, ?_⟩, ?_⟩ <;> rintro rfl <;> revert digit <;> decide
    · simp only [Lexis.isQuote, Bool.or_eq_false_iff, decide_eq_false_iff_not]
      refine ⟨?_, ?_⟩ <;> rintro rfl <;> revert digit <;> decide
  simp [Lexis.start?, others, digit]

theorem prints_toString {k : Int} (positive : 0 < k) : Prints (toString k) [] := by
  obtain ⟨n, rfl⟩ := Int.eq_ofNat_of_zero_le (Int.le_of_lt positive)
  have digits : (toString (n : Int)).toList = Nat.toDigits 10 n := Nat.toList_repr
  have all : ∀ c ∈ Nat.toDigits 10 n, c.isDigit = true := fun c member =>
    Nat.isDigit_of_mem_toDigits (by omega) (by omega) member
  cases start : Nat.toDigits 10 n with
  | nil => exact (Nat.toDigits_ne_nil start).elim
  | cons c rest =>
    rw [start] at all digits
    have first := all c List.mem_cons_self
    have words : rest.all isWordChar = true := List.all_eq_true.mpr fun d member =>
      isWordChar_of_isDigit (all d (List.mem_cons_of_mem c member))
    have scanned : lexis.scan .between (c :: rest) = some ([], .number (rest.reverse ++ [c])) := by
      rw [Lexis.scan_between_cons, start?_of_isDigit first, bind_some, scan_number [c] words]
    refine ⟨[.number (c :: rest)], c, rest, digits, ?_, ?_, .operand rfl⟩
    · intro lengthens
      have noDigit : ∀ d ∈ lengthening, d.isDigit = false :=
        all_iff_forall_prop.mp (by decide)
      rw [noDigit c lengthens] at first
      cases first
    · rw [digits]
      refine ⟨[], .number (rest.reverse ++ [c]), _, scanned, rfl, ?_, ?_⟩
      · simp
      · exact lexis.steady_of_not_sign rfl (by simp [Token.isSign])

end Retarget.Python
