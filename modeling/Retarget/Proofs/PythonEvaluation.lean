import Retarget.Proofs.PythonLiterals

/-!
# Values of Python expressions

A reading of expressions as far as texts are put together: literals, brackets, sums of strings,
`str` and `lower` are evaluated, and a meaning gives the value of every other expression by its
tokens.
-/

namespace Retarget.Python

open Text

variable {tokens : List Token}

def codePoints (text : String) : List Nat :=
  text.toList.map Char.toNat

/-- A value, as far as printing can tell: a string, a truth value, or anything else by its form as
a string. -/
inductive Value where
  | text (points : List Nat)
  | truth (holds : Bool)
  | other (form : List Nat)
  deriving DecidableEq

namespace Value

def form : Value → List Nat
  | text points => points
  | truth holds => codePoints (if holds then "True" else "False")
  | other form => form

def lowered? : Value → Option (List Nat)
  | truth holds => some (codePoints (if holds then "true" else "false"))
  | _ => none

end Value

/-! ## Expressions -/

def formattedBody? : List Token → Option (List Char)
  | [.literal ('f' :: '"' :: rest)] => some rest.dropLast
  | _ => none

/-- Whether tokens are an expression that nothing separates. Formatted strings are read apart. -/
def isExpression (tokens : List Token) : Bool :=
  (survey ⟨0, false⟩ tokens).any (fun seen => seen.2 = ⟨0, true⟩) &&
    ((cutAt? separates ⟨0, false⟩ tokens).isNone && (formattedBody? tokens).isNone)

def operates (nesting : Nesting) (token : Token) : Bool :=
  (tokenStep nesting token).any fun step => !step.1.isEmpty

/-- The first operand of a sum and the rest of the sum: there are plus signs and no other operators
outside brackets. -/
def cutSum? (tokens : List Token) : Option (List Token × List Token) :=
  if (survey ⟨0, false⟩ tokens).any fun seen => seen.1.all (· = "+") then
    cutAt? operates ⟨0, false⟩ tokens
  else none

def inner? (lead tail tokens : List Token) : Option (List Token) :=
  let inner := (tokens.drop lead.length).take (tokens.length - lead.length - tail.length)
  if lead ++ inner ++ tail = tokens then some inner else none

def between? (lead tail tokens : List Token) : Option (List Token) :=
  (inner? lead tail tokens).filter isExpression

def opening : List Token := [.sign ['(']]

def closing : List Token := [.sign [')']]

def converting : List Token := .word "str".toList :: opening

def lowering : List Token := closing ++ [.sign ['.'], .word "lower".toList] ++ opening ++ closing

def constant? : List Token → Option Value
  | [.literal (quote :: rest)] =>
    if Lexis.isQuote quote ∧ rest.getLast? = some quote then
      (content? quote rest.dropLast).map .text
    else none
  | [.word text] =>
    if text = "True".toList then some (.truth true)
    else if text = "False".toList then some (.truth false)
    else none
  | _ => none

theorem length_of_cutAt? {cuts : Nesting → Token → Bool} {nesting : Nesting}
    {left right : List Token} (cut : cutAt? cuts nesting tokens = some (left, right)) :
    left.length + right.length < tokens.length := by
  induction tokens generalizing nesting left with
  | nil => cases cut
  | cons token rest ih =>
    rw [cutAt?] at cut
    split at cut
    · cases cut
      simp
    · obtain ⟨step, -, cut⟩ := Option.bind_eq_some_iff.mp cut
      obtain ⟨⟨first, last⟩, cutRest, same⟩ := Option.map_eq_some_iff.mp cut
      cases same
      have shorter := ih cutRest
      simp only [List.length_cons] at shorter ⊢
      omega

theorem length_of_cutSum? {left right : List Token}
    (cut : cutSum? tokens = some (left, right)) :
    left.length < tokens.length ∧ right.length < tokens.length := by
  unfold cutSum? at cut
  split at cut
  · have shorter := length_of_cutAt? cut
    omega
  · cases cut

theorem eq_of_inner? {lead tail inner : List Token}
    (found : inner? lead tail tokens = some inner) : lead ++ inner ++ tail = tokens := by
  simp only [inner?] at found
  split at found
  next fits =>
    cases found
    exact fits
  next => cases found

theorem length_of_between? {lead tail inner : List Token} (filled : lead ≠ [])
    (found : between? lead tail tokens = some inner) : inner.length < tokens.length := by
  obtain ⟨found, -⟩ := Option.filter_eq_some_iff.mp found
  have lengths := congrArg List.length (eq_of_inner? found)
  have positive := List.length_pos_iff.mpr filled
  simp only [List.length_append] at lengths
  omega

/-- The value of an expression. Its meaning decides where it is neither a sum of strings nor in
brackets, a conversion, a literal or a constant. -/
def evaluate (meaning : List Token → Value) (tokens : List Token) : Value :=
  match _cut : cutSum? tokens with
  | some (left, right) =>
    match evaluate meaning left, evaluate meaning right with
    | .text first, .text second => .text (first ++ second)
    | _, _ => meaning tokens
  | none =>
    match _bracketed : between? opening closing tokens with
    | some inner => evaluate meaning inner
    | none =>
      match _converted : between? converting closing tokens with
      | some inner => .text (evaluate meaning inner).form
      | none =>
        match _lowered : between? converting lowering tokens with
        | some inner => ((evaluate meaning inner).lowered?.map .text).getD (meaning tokens)
        | none => (constant? tokens).getD (meaning tokens)
termination_by tokens.length
decreasing_by
  · exact (length_of_cutSum? _cut).1
  · exact (length_of_cutSum? _cut).2
  · exact length_of_between? (by decide) _bracketed
  · exact length_of_between? (by decide) _converted
  · exact length_of_between? (by decide) _lowered

section Laws

variable {meaning : List Token → Value} {tokens first rest inner : List Token}

variable {shown : List String}

theorem cutAt?_operates_eq_none_iff {nesting after : Nesting}
    (surveyed : survey nesting tokens = some (shown, after)) :
    cutAt? operates nesting tokens = none ↔ shown = [] := by
  induction tokens generalizing nesting shown with
  | nil =>
    cases surveyed
    exact iff_of_true rfl rfl
  | cons token tokens ih =>
    obtain ⟨⟨own, next⟩, steps, surveyed⟩ := Option.bind_eq_some_iff.mp surveyed
    obtain ⟨⟨others, last⟩, surveyedRest, same⟩ := Option.map_eq_some_iff.mp surveyed
    cases same
    rw [cutAt?, operates, steps]
    cases own with
    | nil => simpa using ih surveyedRest
    | cons op ops => simp

theorem cutSum?_of_shows (shows : Shows tokens []) : cutSum? tokens = none := by
  unfold cutSum?
  split
  · exact (cutAt?_operates_eq_none_iff (shows.surveyed 0)).mpr rfl
  · rfl

theorem cutSum?_of_sum (operand : Shows first []) (behind : Shows rest shown)
    (sums : shown.all (· = "+") = true) :
    cutSum? (first ++ .sign ['+'] :: rest) = some (first, rest) := by
  have adds (depth : Nat) : tokenStep ⟨depth, true⟩ (.sign ['+']) =
      some (if depth = 0 then ["+"] else [], ⟨depth, false⟩) := rfl
  have surveyed := (Shows.joined adds operand behind).surveyed 0
  have uncut := (cutAt?_operates_eq_none_iff (operand.surveyed 0)).mpr rfl
  unfold cutSum?
  rw [if_pos, cutAt?_behind uncut (operand.surveyed 0)]
  · simp [cutAt?, operates, adds 0]
  · simp [surveyed, sums]

theorem inner?_append (lead tail inner : List Token) :
    inner? lead tail (lead ++ inner ++ tail) = some inner := by
  have cut : ((lead ++ inner ++ tail).drop lead.length).take
      ((lead ++ inner ++ tail).length - lead.length - tail.length) = inner := by
    have count : (lead ++ inner ++ tail).length - lead.length - tail.length = inner.length := by
      simp only [List.length_append]
      omega
    rw [count, List.append_assoc, List.drop_left, List.take_left]
  simp only [inner?, cut, if_true]

theorem between?_append (expression : isExpression inner = true) (lead tail : List Token) :
    between? lead tail (lead ++ inner ++ tail) = some inner := by
  rw [between?, inner?_append, Option.filter_some, if_pos expression]

theorem evaluate_sum {a b : List Nat} (operand : Shows first [])
    (behind : Shows rest shown) (sums : shown.all (· = "+") = true)
    (left : evaluate meaning first = .text a) (right : evaluate meaning rest = .text b) :
    evaluate meaning (first ++ .sign ['+'] :: rest) = .text (a ++ b) := by
  have cut := cutSum?_of_sum operand behind sums
  rw [evaluate]
  split
  next found =>
    cases cut.symm.trans found
    rw [left, right]
  next missed => cases cut.symm.trans missed

theorem evaluate_bracketed (expression : isExpression inner = true)
    (shows : Shows (opening ++ inner ++ closing) []) :
    evaluate meaning (opening ++ inner ++ closing) = evaluate meaning inner := by
  rw [evaluate, cutSum?_of_shows shows]
  rw [between?_append expression]

theorem between?_converting (tail : List Token) :
    between? opening closing (converting ++ tail) = none := by
  refine Option.filter_eq_none_iff.mpr fun inner found => ?_
  cases congrArg List.head? (eq_of_inner? found)

theorem evaluate_converted (expression : isExpression inner = true)
    (shows : Shows (converting ++ inner ++ closing) []) :
    evaluate meaning (converting ++ inner ++ closing) = .text (evaluate meaning inner).form := by
  rw [evaluate, cutSum?_of_shows shows]
  rw [List.append_assoc, between?_converting, ← List.append_assoc]
  rw [between?_append expression]

theorem evaluate_lowered {points : List Nat} (operand : Shows inner shown)
    (expression : isExpression inner = true) (shows : Shows (converting ++ inner ++ lowering) [])
    (truth : (evaluate meaning inner).lowered? = some points) :
    evaluate meaning (converting ++ inner ++ lowering) = .text points := by
  -- The bracket behind the argument closes the call of `str`, not the one at the end.
  have noConversion : between? converting closing (converting ++ inner ++ lowering) = none := by
    have last : lowering = lowering.dropLast ++ closing := by decide
    have split : converting ++ inner ++ lowering =
        converting ++ (inner ++ lowering.dropLast) ++ closing := by
      refine (congrArg (converting ++ inner ++ ·) last).trans ?_
      simp only [List.append_assoc]
    have unmatched : isExpression (inner ++ lowering.dropLast) = false := by
      have stops : survey ⟨0, true⟩ lowering.dropLast = none := rfl
      simp [isExpression, survey_append, operand.surveyed 0, stops]
    rw [split, between?, inner?_append, Option.filter_some, unmatched]
    rfl
  rw [evaluate, cutSum?_of_shows shows]
  rw [List.append_assoc, between?_converting, ← List.append_assoc]
  rw [noConversion]
  rw [between?_append expression]
  dsimp only
  rw [truth]
  rfl

theorem between?_of_short {lead tail : List Token}
    (short : tokens.length < lead.length + tail.length) : between? lead tail tokens = none := by
  refine Option.filter_eq_none_iff.mpr fun inner found => ?_
  have lengths := congrArg List.length (eq_of_inner? found)
  simp only [List.length_append] at lengths
  omega

theorem evaluate_token {token : Token} (shows : Shows [token] []) :
    evaluate meaning [token] = (constant? [token]).getD (meaning [token]) := by
  have missed {lead tail : List Token} (long : 1 < lead.length + tail.length) :
      between? lead tail [token] = none :=
    between?_of_short long
  rw [evaluate, cutSum?_of_shows shows]
  rw [missed (by decide)]
  rw [missed (by decide)]
  rw [missed (by decide)]

end Laws

/-! ## Texts of expressions -/

def read? (meaning : List Token → Value) (text : String) : Option Value :=
  ((lexis.tokens? text).filter isExpression).map (evaluate meaning)

/-- A text is an expression with this value and these operators outside brackets. -/
def Reads (meaning : List Token → Value) (text : String) (value : Value) (shown : List String) :
    Prop :=
  ∃ tokens, lexis.Spells text.toList tokens ∧ Shows tokens shown ∧ formattedBody? tokens = none ∧
    evaluate meaning tokens = value

theorem Shows.isExpression {shown : List String} (shows : Shows tokens shown)
    (unformatted : formattedBody? tokens = none) : isExpression tokens = true := by
  simp [Python.isExpression, shows.unparted 0, shows.surveyed 0, unformatted]

theorem spells_str : lexis.Spells "str".toList [.word "str".toList] := by
  have cut : lexis.operand? "str" = some (.word "str".toList) := by decide
  exact (Lexis.spells_of_operand? cut).1

theorem shows_str : Shows [.word "str".toList] [] :=
  .operand (by decide)

theorem spells_lowering : lexis.Spells ").lower()".toList lowering := by
  have dotted : lexis.Spells ".lower".toList [.sign ['.'], .word "lower".toList] :=
    ⟨[.sign ['.']], .word "lower".toList.reverse, [.word "lower".toList], by decide, by decide, rfl,
      lexis.steady_of_not_sign rfl (by simp [Token.isSign])⟩
  exact .opened (by decide) (by decide)
    (dotted.followed (by decide) (.opened (by decide) (by decide) (.closing (by decide))))

namespace Reads

variable {meaning : List Token → Value} {text left right : String} {value : Value}
  {shown : List String}

theorem read? (reads : Reads meaning text value shown) : Python.read? meaning text = some value := by
  obtain ⟨tokens, spells, shows, unformatted, rfl⟩ := reads
  have cut := Lexis.tokens?_of_spells spells
  simp [Python.read?, cut, Option.filter, shows.isExpression unformatted]

theorem of_read? (prints : Prints text shown) (read : Python.read? meaning text = some value) :
    Reads meaning text value shown := by
  obtain ⟨tokens, -, -, -, -, spells, shows⟩ := prints
  rw [Python.read?, Lexis.tokens?_of_spells spells, Option.filter_some] at read
  split at read
  next expression =>
    cases read
    simp only [isExpression, Bool.and_eq_true, Option.isNone_iff_eq_none] at expression
    exact ⟨tokens, spells, shows, expression.2.2, rfl⟩
  next => cases read

theorem bracketed (reads : Reads meaning text value shown) :
    Reads meaning (bracketed text) value [] := by
  obtain ⟨tokens, spells, shows, unformatted, rfl⟩ := reads
  have enclosed : Shows (opening ++ tokens ++ closing) [] :=
    .bracketed Shows.round_mem shows.fills
  refine ⟨opening ++ tokens ++ closing, ?_, enclosed, rfl, ?_⟩
  · have opened : (Text.bracketed text).toList = '(' :: (text.toList ++ [')']) := by
      simp [Text.bracketed]
    rw [opened]
    exact spells.bracketed
  · exact evaluate_bracketed (shows.isExpression unformatted) enclosed

theorem delimited (reads : Reads meaning text value shown) (e : Expr) :
    Reads meaning (delimit e text) value (if e.isCompound then [] else shown) := by
  unfold delimit
  split
  · exact reads.bracketed
  · exact reads

theorem converted (reads : Reads meaning text value shown) :
    Reads meaning (applied "str" text) (.text value.form) [] := by
  obtain ⟨tokens, spells, shows, unformatted, rfl⟩ := reads
  have called : Shows (converting ++ tokens ++ closing) [] :=
    shows_str.applied Shows.round_mem shows.fills
  refine ⟨converting ++ tokens ++ closing, ?_, called, rfl, ?_⟩
  · have opened : (applied "str" text).toList = "str".toList ++ '(' :: (text.toList ++ [')']) := by
      simp [applied, Text.bracketed]
    rw [opened]
    exact spells_str.followed (by decide) spells.bracketed
  · exact evaluate_converted (shows.isExpression unformatted) called

theorem lowered {points : List Nat} (reads : Reads meaning text value shown)
    (truth : value.lowered? = some points) :
    Reads meaning (applied "str" text ++ ".lower()") (.text points) [] := by
  obtain ⟨tokens, spells, shows, unformatted, rfl⟩ := reads
  have called : Shows (converting ++ tokens ++ lowering) [] := by
    have plain : String.ofList "lower".toList ∉ operatorWords := by decide
    have called := shows_str.applied Shows.round_mem shows.fills
    have again := (called.dotted plain).applied Shows.round_mem .nil
    simpa [converting, lowering, opening, closing] using again
  refine ⟨converting ++ tokens ++ lowering, ?_, called, rfl, ?_⟩
  · have opened : (applied "str" text ++ ".lower()").toList =
        "str".toList ++ '(' :: (text.toList ++ ").lower()".toList) := by
      simp [applied, Text.bracketed]
    rw [opened]
    refine spells_str.followed (by decide) (.opened (by decide) (by simp) ?_)
    exact spells.followed (by decide) spells_lowering
  · exact evaluate_lowered shows (shows.isExpression unformatted) called truth

theorem token {token : Token} (cut : lexis.operand? text = some token)
    (operand : isOperand token = true) (unformatted : formattedBody? [token] = none) :
    Reads meaning text ((constant? [token]).getD (meaning [token])) [] := by
  obtain ⟨spells, -⟩ := Lexis.spells_of_operand? cut
  exact ⟨_, spells, .operand operand, unformatted, evaluate_token (.operand operand)⟩

theorem quoted {body : String} {points : List Nat}
    (content : content? '"' body.toList = some points) :
    Reads meaning (quoted body) (.text points) [] := by
  have spells := spells_quoted content
  have shows : Shows [.literal (Text.quoted body).toList] [] := .operand rfl
  have opened : (Text.quoted body).toList = '"' :: (body.toList ++ ['"']) := by simp [Text.quoted]
  refine ⟨_, spells, shows, by rw [opened]; rfl, ?_⟩
  rw [evaluate_token shows]
  simp [opened, constant?, Lexis.isQuote, content]

theorem formattedBody?_append (first rest : List Token) :
    formattedBody? (first ++ .sign ['+'] :: rest) = none := by
  obtain _ | ⟨token, _ | _⟩ := first <;> simp [formattedBody?]

theorem sum {first second : List Nat} (before : Reads meaning left (.text first) [])
    (behind : Reads meaning right (.text second) shown) (sums : shown.all (· = "+") = true) :
    Reads meaning (left ++ " + " ++ right) (.text (first ++ second)) ("+" :: shown) := by
  obtain ⟨tokens, spells, shows, -, value⟩ := before
  obtain ⟨others, otherSpells, otherShows, -, otherValue⟩ := behind
  have adds (depth : Nat) : tokenStep ⟨depth, true⟩ (.sign ['+']) =
      some (if depth = 0 then ["+"] else [], ⟨depth, false⟩) := rfl
  refine ⟨tokens ++ .sign ['+'] :: others, ?_, .joined adds shows otherShows,
    formattedBody?_append tokens others, evaluate_sum shows otherShows sums value otherValue⟩
  have reads : lexis.scan .between ("+".toList ++ [' ']) = some ([.sign ['+']], .between) := by
    decide
  have opened : (left ++ " + " ++ right).toList =
      left.toList ++ ' ' :: ("+".toList ++ ' ' :: right.toList) := by simp
  rw [opened]
  exact spells.spaced reads otherSpells

end Reads

end Retarget.Python
