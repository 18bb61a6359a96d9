import Retarget.Proofs.PythonExprOrderly
import Retarget.Proofs.PythonOperand
import Retarget.Proofs.PythonPrinting

/-!
# The forms of a print

A print of a concatenation is written with a label and a value as two arguments, as a formatted
string, or as a sum of strings.
-/

namespace Retarget.Python

open Text Attempt

/-! ## Parts of a concatenation -/

/-- A value of a type has this form in a concatenation: strings and characters are texts, and a
truth value is in small letters. -/
def FormedAs (type : ValueType) (value : Value) (out : List Nat) : Prop :=
  match type with
  | .string | .char => value = .text out
  | .boolean => value.lowered? = some out
  | _ => value.form = out

/-- What a part adds to a concatenation: a literal its content, and a value its form. The value is
one that can be rendered in a line, with identifiers and literals that are single tokens. -/
def Adds (table : SymbolTable) (meaning : List Token → Value) (part : Expr) (out : List Nat) :
    Prop :=
  match part.stringBody? with
  | some body => content? '"' body.toList = some out
  | none =>
    hasSingleLeaves table part = true ∧ ∃ text value, Renders table part text ∧
      '\n' ∉ text.toList ∧ read? meaning text = some value ∧ FormedAs (table.typeOf part) value out

section Parts

variable {table : SymbolTable} {meaning : List Token → Value} {part : Expr} {out : List Nat}
  {text body : String} {value : Value} {shown : List String}

theorem FormedAs.form {type : ValueType} (formed : FormedAs type value out)
    (noTruth : type ≠ .boolean) : value.form = out := by
  cases type with
  | string | char =>
    cases formed
    rfl
  | boolean => exact (noTruth rfl).elim
  | byte | short | int | long | float | double | unknown => exact formed

theorem eq_literal_of_stringBody? (isLiteral : part.stringBody? = some body) :
    part = .literal (.string body) := by
  cases part with
  | literal value =>
    cases value with
    | string text =>
      cases isLiteral
      rfl
    | _ => cases isLiteral
  | _ => cases isLiteral

theorem renders_literal (table : SymbolTable) (value : Literal) :
    Renders table (.literal value) (literalText value) :=
  fun cx _ => ⟨cx, rfl⟩

theorem Adds.reads (adds : Adds table meaning part out) (noLiteral : part.stringBody? = none) :
    ∃ text value shown, Renders table part text ∧ '\n' ∉ text.toList ∧
      Reads meaning text value shown ∧ (shown = [] ↔ shows table part = false) ∧
      FormedAs (table.typeOf part) value out := by
  rw [Adds, noLiteral] at adds
  obtain ⟨single, text, value, renders, unbroken, read, formed⟩ := adds
  obtain ⟨shown, prints, shown_iff, -⟩ := renders.of_yields (expr_rendered table part single)
  exact ⟨text, value, shown, renders, unbroken, .of_read? prints read, shown_iff, formed⟩

theorem Adds.content (adds : Adds table meaning part out)
    (isLiteral : part.stringBody? = some body) : content? '"' body.toList = some out := by
  rw [Adds, isLiteral] at adds
  exact adds

theorem reads_truth (meaning : List Token → Value) (holds : Bool) :
    Reads meaning (literalText (.bool holds)) (.truth holds) [] := by
  have cut : lexis.operand? (literalText (.bool holds)) =
      some (.word (literalText (.bool holds)).toList) := by
    cases holds <;> decide
  cases holds <;> exact .token cut (by decide) rfl

theorem Reads.booleanForm (reads : Reads meaning text value shown)
    (renders : Renders table part text) (truth : value.lowered? = some out) :
    Reads meaning (booleanForm part text) (.text out) [] := by
  unfold Python.booleanForm
  split
  next holds =>
    cases (renders_literal table (.bool holds)).unique renders
    have same := (reads_truth meaning holds).read?.symm.trans reads.read?
    cases same
    cases truth
    cases holds <;> exact .quoted (by decide)
  next => exact reads.lowered truth

theorem Adds.renders (adds : Adds table meaning part out) : ∃ text, Renders table part text := by
  cases isLiteral : part.stringBody? with
  | some body =>
    rw [eq_literal_of_stringBody? isLiteral]
    exact ⟨_, renders_literal table (.string body)⟩
  | none =>
    obtain ⟨text, -, -, renders, -⟩ := adds.reads isLiteral
    exact ⟨text, renders⟩

theorem Adds.outputs (adds : Adds table meaning part out) (noLiteral : part.stringBody? = none) :
    Gives table (printedValue part) (Outputs meaning · out) := by
  obtain ⟨text, value, shown, renders, -, reads, -, formed⟩ := adds.reads noLiteral
  refine renders.printedValue.mono fun written same => ?_
  subst same
  split
  next truth =>
    rw [truth] at formed
    exact (reads.booleanForm renders formed).outputs
  next noTruth =>
    rw [← formed.form noTruth]
    exact reads.outputs

theorem Adds.field (adds : Adds table meaning part out) (noLiteral : part.stringBody? = none) :
    ∃ text field value shown, Renders table part text ∧ value.form = out ∧
      field = (if table.typeOf part = .boolean then applied "str" text ++ ".lower()" else text) ∧
      '\n' ∉ field.toList ∧ Reads meaning field value shown := by
  obtain ⟨text, value, shown, renders, unbroken, reads, -, formed⟩ := adds.reads noLiteral
  by_cases truth : table.typeOf part = .boolean
  · rw [truth] at formed
    refine ⟨text, _, .text out, [], renders, rfl, (if_pos truth).symm, ?_, reads.lowered formed⟩
    simpa [applied, bracketed] using unbroken
  · exact ⟨text, _, value, shown, renders, formed.form truth, (if_neg truth).symm, unbroken, reads⟩

/-- Whether a part is a string that shows an operator where it stands in a sum. -/
def isTorn (table : SymbolTable) (part : Expr) : Bool :=
  table.typeOf part ∈ [.string, .char] && bare table part

theorem Adds.summand (adds : Adds table meaning part out) (renders : Renders table part text)
    (sound : isTorn table part = false) :
    Reads meaning (stringForm (table.typeOf part) part text) (.text out) [] := by
  cases isLiteral : part.stringBody? with
  | some body =>
    have content := adds.content isLiteral
    cases eq_literal_of_stringBody? isLiteral
    cases (renders_literal table (.string body)).unique renders
    exact .quoted content
  | none =>
    obtain ⟨inner, value, shown, rendersInner, -, reads, shown_iff, formed⟩ := adds.reads isLiteral
    cases rendersInner.unique renders
    have delimited (isText : table.typeOf part ∈ [.string, .char]) :
        Reads meaning (delimit part text) value [] := by
      have sheltered : bare table part = false := by simpa [isTorn, isText] using sound
      have closed : (if part.isCompound then [] else shown) = [] := by
        split
        · rfl
        next simple =>
          simp only [bare, simple] at sheltered
          exact shown_iff.mpr (by simpa using sheltered)
      have found := reads.delimited part
      rw [closed] at found
      exact found
    generalize table.typeOf part = type at formed delimited
    cases type with
    | string | char =>
      cases formed
      exact delimited (by decide)
    | boolean => exact reads.booleanForm rendersInner formed
    | byte | short | int | long | float | double | unknown =>
      cases formed
      exact reads.converted

end Parts

variable {table : SymbolTable} {meaning : List Token → Value} {parts : List Expr}
  {outs : List (List Nat)}

def printCall (newline : Bool) (args : String) : String :=
  applied "print" (args ++ printEnd newline)

theorem printed?_single {arg : String} {out : List Nat} (outputs : Outputs meaning arg out)
    (newline : Bool) :
    printed? meaning (printCall newline arg) = some (out ++ lineEnd newline) := by
  have printed := printed?_of_outputs (List.cons_ne_nil _ _) (.cons outputs .nil) newline
  rwa [List.intercalate_singleton] at printed

/-! ## A label and a value -/

/-- Whether a label ends in no more than the blank that stands between two arguments. -/
def isEven (parts : List Expr) : Bool :=
  (parts.head?.bind Expr.stringBody?).all fun body => !endsIn "  " body

theorem replicate_isPrefix_iff {α : Type} [DecidableEq α] (a : α) (count : Nat) (xs : List α) :
    List.replicate count a <+: xs ↔ count ≤ (xs.takeWhile (· = a)).length := by
  induction count generalizing xs with
  | zero => simp
  | succ count ih =>
    cases xs with
    | nil => simp
    | cons x xs =>
      by_cases same : x = a
      · subst same
        simp [List.replicate_succ, List.cons_prefix_cons, ih]
      · have other : a ≠ x := Ne.symm same
        simp [List.replicate_succ, List.cons_prefix_cons, same, other]

theorem exists_blanks (body : String) : ∃ count,
    body.toList = dropTailWhile (· = ' ') body.toList ++ List.replicate count ' ' ∧
      ∀ tail : String, ∀ length, tail.toList = List.replicate length ' ' →
        (endsIn tail body = true ↔ length ≤ count) := by
  have blanks : body.toList.reverse.takeWhile (· = ' ') =
      List.replicate (body.toList.reverse.takeWhile (· = ' ')).length ' ' := by
    refine List.eq_replicate_of_mem fun c member => ?_
    simpa using List.all_eq_true.mp List.all_takeWhile c member
  refine ⟨(body.toList.reverse.takeWhile (· = ' ')).length, ?_, fun tail length isBlank => ?_⟩
  · have split := dropTailWhile_append_tail (· = ' ') body.toList
    rw [blanks, List.reverse_replicate] at split
    exact split.symm
  · rw [endsIn, isBlank, List.isSuffixOf_iff_suffix, ← List.reverse_prefix, List.reverse_replicate,
      replicate_isPrefix_iff]

theorem printed?_labelled {label value : String} {before out : List Nat}
    (content : content? '"' label.toList = some before) (outputs : Outputs meaning value out)
    (rest : Nat) (newline : Bool) : ∃ text,
      printed? meaning (printCall newline (quoted label ++ ", " ++ value)) =
        some (text ++ lineEnd newline) ∧
      (text = before ++ List.replicate (rest + 1) 32 ++ out ↔ rest = 0) := by
  have first : Outputs meaning (quoted label) before :=
    Reads.outputs (.quoted content)
  have printed := printed?_of_outputs (List.cons_ne_nil _ _)
    (.cons first (.cons outputs .nil)) newline
  have spaced : [32].intercalate [before, out] = before ++ [32] ++ out := by simp [List.intercalate]
  rw [spaced] at printed
  refine ⟨_, printed, ?_⟩
  rw [List.append_cancel_right_eq, List.append_cancel_left_eq]
  constructor
  · intro same
    have lengths := congrArg List.length same
    simpa using lengths.symm
  · rintro rfl
    rfl

theorem labelAndValue_gives (adds : List.Forall₂ (Adds table meaning) parts outs)
    (newline : Bool) : Gives table (labelAndValue parts) fun labelled => ∀ args ∈ labelled, ∃ text,
      printed? meaning (printCall newline args) = some (text ++ lineEnd newline) ∧
        (text = outs.flatten ↔ isEven parts = true) := by
  have absent : Gives table (pure none : Attempt (Option String)) fun labelled =>
      ∀ args ∈ labelled, ∃ text,
        printed? meaning (printCall newline args) = some (text ++ lineEnd newline) ∧
          (text = outs.flatten ↔ isEven parts = true) :=
    .pure fun args found => by cases found
  unfold labelAndValue
  split
  next label value =>
    obtain _ | ⟨addsLabel, _ | ⟨addsValue, _ | _⟩⟩ := adds
    split
    · exact absent
    next body isLiteral =>
      split
      · exact absent
      next fits =>
        simp only [Bool.or_eq_true, Bool.not_eq_true', not_or, Bool.not_eq_true, Bool.not_eq_false,
          Option.isSome_eq_false_iff, Option.isNone_iff_eq_none] at fits
        refine (addsValue.outputs fits.1).bind fun shown outputs => .pure fun args found => ?_
        cases found
        obtain ⟨count, split, ends_iff⟩ := exists_blanks body
        obtain ⟨rest, rfl⟩ := Nat.exists_eq_add_of_le' ((ends_iff " " 1 rfl).mp fits.2)
        have content := addsLabel.content isLiteral
        rw [split] at content
        obtain ⟨before, trimmed, rfl⟩ := Escape.content?_blanks content
        rw [← String.toList_ofList (l := dropTailWhile _ body.toList)] at trimmed
        obtain ⟨text, printed, same_iff⟩ := printed?_labelled trimmed outputs rest newline
        refine ⟨text, printed, ?_⟩
        have long_iff := ends_iff "  " 2 rfl
        have even_iff : isEven [label, value] = true ↔ ¬endsIn "  " body = true := by
          simp [isEven, isLiteral]
        rw [even_iff, long_iff, List.flatten_cons, List.flatten_cons, List.flatten_nil,
          List.append_nil, same_iff]
        omega
  next => exact absent

/-! ## A formatted string -/

/-- Whether no literal gives its first digit to an escape before it. The parts stand behind
`escape`. -/
def isSeamless (escape : Escape) : List Expr → Bool
  | [] => true
  | part :: rest =>
    match part.stringBody? with
    | some body =>
      !escape.absorbs body.toList &&
        (escape.decode '"' body.toList).any fun reached => isSeamless reached.2 rest
    | none => isSeamless .clear rest

/-- Pieces of a formatted string that can be read behind every escape that may end. What is read is
no longer than what the parts add, and it is the same exactly if they are seamless. -/
def Formats (meaning : List Token → Value) (parts : List Expr) (outs : List (List Nat))
    (pieces : List Char) : Prop :=
  ∀ escape points, escape.pending? = some points → ∃ text,
    formatted? meaning (.literal escape) pieces = some text ∧
      text.length ≤ (points ++ outs.flatten).length ∧
      (text = points ++ outs.flatten ↔ isSeamless escape parts = true)

namespace Formats

variable {part : Expr} {body text : String} {value : Value} {out : List Nat} {pieces : List Char}
  {shown : List String}

theorem nil (meaning : List Token → Value) : Formats meaning [] [] [] := by
  intro escape points ends
  refine ⟨points, ?_, by simp, by simp [isSeamless]⟩
  rw [formatted?, ends]

theorem literal (isLiteral : part.stringBody? = some body)
    (content : content? '"' body.toList = some out) (later : Formats meaning parts outs pieces) :
    Formats meaning (part :: parts) (out :: outs) (doubled body.toList ++ pieces) := by
  intro escape points ends
  obtain ⟨more, next, ended, decoded, nextEnds, short, shorter, same⟩ :=
    Escape.decode_behind ends content
  obtain ⟨text, read, bound, same_iff⟩ := later next ended nextEnds
  refine ⟨more ++ text, ?_, ?_, ?_⟩
  · rw [formatted?_literal decoded, read]
    rfl
  · simp only [List.length_append, List.flatten_cons] at bound short ⊢
    omega
  · cases taken : escape.absorbs body.toList with
    | true =>
      have less := shorter taken
      have torn : isSeamless escape (part :: parts) = false := by
        simp [isSeamless, isLiteral, taken]
      refine iff_of_false (fun equal => ?_) (by simp [torn])
      have lengths := congrArg List.length equal
      simp only [List.length_append, List.flatten_cons] at bound less lengths
      omega
    | false =>
      have joined : points ++ (out :: outs).flatten = more ++ (ended ++ outs.flatten) := by
        rw [List.flatten_cons, ← List.append_assoc, ← same taken, List.append_assoc]
      have onward : isSeamless escape (part :: parts) = isSeamless next parts := by
        simp [isSeamless, isLiteral, taken, decoded]
      rw [joined, List.append_cancel_left_eq, same_iff, onward]

theorem field (noLiteral : part.stringBody? = none) (reads : Reads meaning text value shown)
    (unbroken : '\n' ∉ text.toList) (plain : isPlain text = true)
    (later : Formats meaning parts outs pieces) :
    Formats meaning (part :: parts) (value.form :: outs)
      ('\x7b' :: (text.toList ++ '\x7d' :: pieces)) := by
  intro escape points ends
  obtain ⟨more, read, bound, same_iff⟩ := later .clear [] rfl
  have onward : isSeamless escape (part :: parts) = isSeamless .clear parts := by
    simp [isSeamless, noLiteral]
  have unquoted : text.toList.all (fun c => c ∉ ['"', '\\', '\n']) = true := by
    refine List.all_eq_true.mpr fun c member => decide_eq_true fun special => ?_
    rw [isPlain, Bool.not_eq_true', List.any_eq_false] at plain
    have apart := plain c member
    simp only [List.mem_cons, List.not_mem_nil, or_false, ← or_assoc] at special
    obtain special | rfl := special
    · exact apart (by simpa using special)
    · exact unbroken member
  refine ⟨points ++ value.form ++ more, ?_, ?_, ?_⟩
  · rw [formatted?_field ends reads unquoted, read]
    rfl
  · simp only [List.length_append, List.flatten_cons, List.length_nil] at bound ⊢
    omega
  · rw [List.flatten_cons, ← List.append_assoc, List.append_cancel_left_eq, onward, ← same_iff,
      List.nil_append]

end Formats

theorem formattedPieces_gives (adds : List.Forall₂ (Adds table meaning) parts outs) :
    Gives table (formattedPieces parts) fun found =>
      ∀ pieces ∈ found, Formats meaning parts outs pieces.toList := by
  induction adds with
  | nil =>
    refine .pure fun pieces found => ?_
    cases found
    exact .nil meaning
  | @cons part out parts outs adds _ ih =>
    rw [formattedPieces]
    split
    next body isLiteral =>
      refine ih.bind fun found formats => .pure fun pieces joined => ?_
      obtain ⟨later, rfl, rfl⟩ := Option.map_eq_some_iff.mp joined
      rw [String.toList_append, toList_formattedLiteral]
      exact .literal isLiteral (adds.content isLiteral) (formats later rfl)
    next noLiteral =>
      obtain ⟨text, field, value, shown, renders, formed, isField, unbroken, reads⟩ :=
        adds.field noLiteral
      refine renders.gives.bind fun written same => .symbols ?_
      subst same
      dsimp only
      rw [← isField]
      split
      next plain =>
        refine ih.bind fun found formats => .pure fun pieces joined => ?_
        obtain ⟨later, rfl, rfl⟩ := Option.map_eq_some_iff.mp joined
        have opened : ("\x7b" ++ field ++ "\x7d" ++ later).toList =
            '\x7b' :: (field.toList ++ '\x7d' :: later.toList) := by simp
        rw [opened, ← formed]
        exact .field noLiteral reads unbroken plain (formats later rfl)
      next => exact .pure fun pieces found => by cases found

/-- A formatted string prints what its parts add if no escape takes a digit from the literal behind
it, and something else if one does. -/
theorem formattedString_gives (adds : List.Forall₂ (Adds table meaning) parts outs)
    (newline : Bool) :
    Gives table (formattedString parts) fun formatted => ∀ args ∈ formatted, ∃ text,
      printed? meaning (printCall newline args) = some (text ++ lineEnd newline) ∧
        (text = outs.flatten ↔ isSeamless .clear parts = true) := by
  unfold formattedString
  dsimp only
  split
  · exact .pure fun args found => by cases found
  · refine (formattedPieces_gives adds).bind fun found formats => .pure fun args joined => ?_
    obtain ⟨pieces, rfl, rfl⟩ := Option.map_eq_some_iff.mp joined
    obtain ⟨text, read, -, same_iff⟩ := formats pieces rfl .clear [] rfl
    exact ⟨text, printed?_single (outputs_of_formatted? read) newline, same_iff⟩

/-! ## A sum of strings -/

theorem reads_sum {texts : List String} (filled : parts ≠ [])
    (adds : List.Forall₂ (Adds table meaning) parts outs)
    (written : List.Forall₂ (fun part text => ∃ inner, Renders table part inner ∧
      text = stringForm (table.typeOf part) part inner) parts texts)
    (sound : ∀ part ∈ parts, isTorn table part = false) :
    ∃ shown, Reads meaning (join " + " texts) (.text outs.flatten) shown ∧
      shown.all (· = "+") = true := by
  induction adds generalizing texts with
  | nil => exact (filled rfl).elim
  | @cons part out parts outs adds later ih =>
    obtain _ | ⟨⟨inner, renders, rfl⟩, written⟩ := written
    obtain ⟨soundPart, soundLater⟩ := List.forall_mem_cons.mp sound
    have reads := adds.summand renders soundPart
    cases later with
    | nil =>
      obtain _ | _ := written
      refine ⟨[], ?_, rfl⟩
      simpa [Text.join] using reads
    | @cons next nextOut others otherOuts addsNext addsOthers =>
      obtain _ | ⟨writtenNext, writtenOthers⟩ := written
      obtain ⟨shown, readsLater, sums⟩ :=
        ih (List.cons_ne_nil _ _) (.cons writtenNext writtenOthers) soundLater
      have joined {first second : String} {rest : List String} :
          join " + " (first :: second :: rest) = first ++ " + " ++ join " + " (second :: rest) := by
        simp [Text.join, String.intercalate_cons_cons]
      rw [joined]
      exact ⟨"+" :: shown, reads.sum readsLater sums, by simp [sums]⟩

theorem concatenation_gives (filled : parts ≠ [])
    (adds : List.Forall₂ (Adds table meaning) parts outs) (newline : Bool) :
    Gives table (concatenation parts) fun args =>
      (∀ part ∈ parts, isTorn table part = false) →
        printed? meaning (printCall newline args) = some (outs.flatten ++ lineEnd newline) := by
  have values : Gives table (parts.mapM stringValue) (List.Forall₂ (fun part text =>
      ∃ inner, Renders table part inner ∧ text = stringForm (table.typeOf part) part inner) parts) := by
    refine .mapM fun part member => ?_
    obtain ⟨out, addsPart⟩ := exists_related adds member
    obtain ⟨inner, renders⟩ := addsPart.renders
    exact renders.stringValue.mono fun text same => ⟨inner, renders, same⟩
  refine values.bind fun texts written => .pure fun sound => ?_
  obtain ⟨shown, reads, -⟩ := reads_sum filled adds written sound
  exact printed?_single reads.outputs newline

/-! ## The choice of a form -/

theorem adds_ident {name : String} {out : List Nat} (token : Token)
    (cut : lexis.operand? (table.targetName name) = some token) (operand : isOperand token = true)
    (unformatted : formattedBody? [token] = none) (unbroken : '\n' ∉ (table.targetName name).toList)
    (formed : FormedAs (table.typeOf (.ident name)) ((constant? [token]).getD (meaning [token])) out) :
    Adds table meaning (.ident name) out := by
  have single : isSingle (table.targetName name) = true := by simp [isSingle, cut, operand]
  have renders : Renders table (.ident name) (table.targetName name) := by
    intro cx same
    rw [← same]
    exact ⟨cx, rfl⟩
  exact ⟨single, _, _, renders, unbroken, (Reads.token cut operand unformatted).read?, formed⟩

theorem adds_string {body : String} {out : List Nat}
    (content : content? '"' body.toList = some out) :
    Adds table meaning (.literal (.string body)) out :=
  content

theorem concatenatedArgs_gives {labelled formatted : Option String} {chain : String}
    (givesLabelled : Gives table (labelAndValue parts) (· = labelled))
    (givesFormatted : Gives table (formattedString parts) (· = formatted))
    (givesChain : Gives table (concatenation parts) (· = chain)) :
    Gives table (concatenatedArgs parts) (· = (labelled.or formatted).getD chain) := by
  refine givesLabelled.bind fun found same => ?_
  subst same
  cases found with
  | some args => exact .pure rfl
  | none =>
    refine givesFormatted.bind fun found same => ?_
    subst same
    cases found with
    | some args => exact .pure rfl
    | none => exact givesChain

/-- What is printed of a concatenation, whichever of its forms is chosen: the label and the value if
it is made of these, else the formatted string if there can be one, else the sum. A label and a value
print what the parts add, one behind the other, exactly if the label ends in one blank. A formatted
string does exactly if no escape takes a digit from the literal behind it. A sum does if no string in
it shows an operator. -/
theorem print_concatenation (table : SymbolTable) (meaning : List Token → Value) {arg : Expr}
    {outs : List (List Nat)} (joins : table.isConcatenation arg = true)
    (adds : List.Forall₂ (Adds table meaning) (table.concatParts arg) outs) (newline : Bool) :
    ∃ labelled formatted chain, Gives table (labelAndValue (table.concatParts arg)) (· = labelled) ∧
      Gives table (formattedString (table.concatParts arg)) (· = formatted) ∧
      Gives table (concatenation (table.concatParts arg)) (· = chain) ∧
      Gives table (print ⟨[arg], newline, false⟩)
        (· = printCall newline ((labelled.or formatted).getD chain)) ∧
      (∀ args ∈ labelled, ∃ text,
        printed? meaning (printCall newline args) = some (text ++ lineEnd newline) ∧
          (text = outs.flatten ↔ isEven (table.concatParts arg) = true)) ∧
      (∀ args ∈ formatted, ∃ text,
        printed? meaning (printCall newline args) = some (text ++ lineEnd newline) ∧
          (text = outs.flatten ↔ isSeamless .clear (table.concatParts arg) = true)) ∧
      ((∀ part ∈ table.concatParts arg, isTorn table part = false) →
        printed? meaning (printCall newline chain) = some (outs.flatten ++ lineEnd newline)) := by
  obtain ⟨labelled, givesLabelled, printsLabelled⟩ :=
    (labelAndValue_consulting (.inl trivial)).exists_gives (labelAndValue_gives adds newline)
  obtain ⟨formatted, givesFormatted, printsFormatted⟩ :=
    (formattedString_consulting (.inl trivial)).exists_gives (formattedString_gives adds newline)
  obtain ⟨chain, givesChain, printsChain⟩ := (concatenation_consulting (.inl trivial)).exists_gives
    (concatenation_gives (table.concatParts_ne_nil arg) adds newline)
  refine ⟨labelled, formatted, chain, givesLabelled, givesFormatted, givesChain, ?_,
    printsLabelled, printsFormatted, printsChain⟩
  refine .symbols ?_
  rw [if_pos joins]
  refine (concatenatedArgs_gives givesLabelled givesFormatted givesChain).bind fun args same => ?_
  subst same
  exact .pure rfl

/-- Braces, an octal escape before another literal, and a truth value. -/
theorem print_concatenation_braces :
    let table : SymbolTable := { inner := [.scalar "on" .boolean] }
    let meaning : List Token → Value := fun _ => .truth true
    let arg : Expr := .binary .add
      (.binary .add (.literal (.string "\x7b\\7")) (.literal (.string "x\x7d "))) (.ident "on")
    let outs := [[123, 7], codePoints "x\x7d ", codePoints "true"]
    table.isConcatenation arg = true ∧
      List.Forall₂ (Adds table meaning) (table.concatParts arg) outs ∧
      ∃ text, Gives table (print ⟨[arg], true, false⟩) (· = text) ∧
        printed? meaning text = some (outs.flatten ++ [10]) := by
  intro table meaning arg outs
  have joins : table.isConcatenation arg = true := by decide
  have adds : List.Forall₂ (Adds table meaning) (table.concatParts arg) outs :=
    .cons (adds_string (by decide)) (.cons (adds_string (by decide))
      (.cons (adds_ident (.word ['o', 'n']) (by decide) rfl rfl (by decide) rfl) .nil))
  refine ⟨joins, adds, ?_⟩
  obtain ⟨labelled, formatted, chain, -, -, -, gives, printsLabelled, printsFormatted,
    printsChain⟩ := print_concatenation table meaning joins adds true
  refine ⟨_, gives, ?_⟩
  cases labelled with
  | some args =>
    obtain ⟨text, printed, same_iff⟩ := printsLabelled args rfl
    rw [same_iff.mpr (by decide)] at printed
    exact printed
  | none =>
    cases formatted with
    | some args =>
      obtain ⟨text, printed, same_iff⟩ := printsFormatted args rfl
      rw [same_iff.mpr (by decide)] at printed
      exact printed
    | none => exact printsChain (by decide)

/-- A label that ends in two blanks loses one of them, and an octal escape takes the digit of the
literal behind it. -/
theorem print_concatenation_misses :
    let cx : Context := { target := .python, symbols := { inner := [.scalar "n" .int] } }
    let meaning : List Token → Value := fun _ => .other (codePoints "5")
    let wide : Expr := .binary .add (.literal (.string "x:  ")) (.ident "n")
    let octal : Expr := .binary .add
      (.binary .add (.literal (.string "\\1")) (.literal (.string "2"))) (.ident "n")
    (List.Forall₂ (Adds cx.symbols meaning) (cx.symbols.concatParts wide)
        [codePoints "x:  ", codePoints "5"] ∧
      (∃ result after, (print ⟨[wide], true, false⟩).run.run cx = .ok (result, after) ∧
        result = .ok "print(\"x:\", n)") ∧
      printed? meaning "print(\"x:\", n)" = some (codePoints "x: 5\n")) ∧
    (List.Forall₂ (Adds cx.symbols meaning) (cx.symbols.concatParts octal)
        [[1], codePoints "2", codePoints "5"] ∧
      (∃ result after, (print ⟨[octal], true, false⟩).run.run cx = .ok (result, after) ∧
        result = .ok "print(f\"\\12\x7bn\x7d\")") ∧
      printed? meaning "print(f\"\\12\x7bn\x7d\")" = some (codePoints "\n5\n")) := by
  intro cx meaning wide octal
  have number : Adds cx.symbols meaning (.ident "n") (codePoints "5") :=
    adds_ident (.word ['n']) (by decide) rfl rfl (by decide) rfl
  have cut : lexis.operand? "n" = some (.word ['n']) := by decide
  have reads : Reads meaning "n" (.other (codePoints "5")) [] := .token cut rfl rfl
  refine ⟨⟨.cons (adds_string (by decide)) (.cons number .nil), by decide +kernel, ?_⟩,
    .cons (adds_string (by decide)) (.cons (adds_string (by decide)) (.cons number .nil)),
    by decide +kernel, ?_⟩
  · have label : Outputs meaning (quoted "x:") (codePoints "x:") :=
      Reads.outputs (.quoted (by decide))
    exact printed?_of_outputs (List.cons_ne_nil _ _) (.cons label (.cons reads.outputs .nil)) true
  · have decoded : Escape.clear.decode '"' ['\\', '1', '2'] = some ([], .octal 1 10) := by decide
    have formatted : formatted? meaning (.literal .clear) "\\12\x7bn\x7d".toList =
        some (10 :: codePoints "5") := by
      have split : "\\12\x7bn\x7d".toList =
          doubled ['\\', '1', '2'] ++ '\x7b' :: ("n".toList ++ '\x7d' :: []) := by decide
      rw [split, formatted?_literal decoded, formatted?_field rfl reads (by decide)]
      rfl
    exact printed?_single (outputs_of_formatted? formatted) true

end Retarget.Python
