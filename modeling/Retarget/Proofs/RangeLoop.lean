import Retarget.Proofs.Layout
import Retarget.Proofs.LoopHeader

/-!
# Ranges that enumerate a loop

A counting loop from one number to another becomes a loop over a range, whose arguments are texts.
-/

namespace Retarget

open Text (minInteger maxInteger isInteger_iff)

namespace Trial

variable {ε α β : Type} {first : Trial ε α} {rest : α → Trial ε β} {cx between : Context}

theorem run_bind_of_ok {middle : α} (begun : first.run.run cx = .ok (.ok middle, between)) :
    (first >>= rest).run.run cx = (rest middle).run.run between := by
  rw [ExceptT.run_bind, Render.run_bind, begun]
  rfl

end Trial

/-- An integer literal under any number of minus signs, and the number that it stands for; a literal
itself stands for its unsigned value. -/
inductive Expr.StandsFor : Expr → Int → Prop where
  | int {digits : String} {n : Nat} (number : Numeral.java.value? digits.toList = some n) :
      StandsFor (.literal (.int digits)) n
  | long {digits : String} {n : Nat} (number : Numeral.java.value? digits.toList = some n) :
      StandsFor (.literal (.long digits)) n
  | neg {operand : Expr} {value : Int} (stands : StandsFor operand value) :
      StandsFor (.unary .neg operand) (-value)

/-- Negation does not change whether a number is in range, so only too great numerals have none. -/
theorem literalInteger_of_standsFor {e : Expr} {value : Int} (stands : e.StandsFor value) :
    literalInteger e =
      .ok (if -maxInteger ≤ value ∧ value ≤ maxInteger then some value else none) := by
  induction stands with
  | @int digits n found | @long digits n found =>
    refine congrArg Except.ok ((Numeral.numeralValue_eq found).trans ?_)
    refine if_congr (isInteger_iff.trans ?_) rfl rfl
    simp only [minInteger, maxInteger]
    omega
  | @neg operand value _ ih =>
    rw [literalInteger, ih]
    by_cases fits : -maxInteger ≤ value ∧ value ≤ maxInteger
    · rw [if_pos fits, if_pos (by omega)]
      exact if_neg (by simp only [minInteger, maxInteger] at fits ⊢; omega)
    · rw [if_neg fits, if_neg (by omega)]

theorem Expr.StandsFor.literalInteger_eq {e : Expr} {value number : Int}
    (stands : e.StandsFor value) (read : literalInteger e = .ok (some number)) :
    number = value := by
  rw [literalInteger_of_standsFor stands] at read
  split at read <;> cases read
  rfl

namespace Python

/-- A text of minus signs, brackets and a numeral, and the number that it stands for. -/
inductive Denotes : List Char → Int → Prop where
  | numeral {cs : List Char} {n : Nat} (number : Numeral.python.value? cs = some n) : Denotes cs n
  | negated {cs : List Char} {value : Int} (denotes : Denotes cs value) :
      Denotes ('-' :: cs) (-value)
  | bracketed {cs : List Char} {value : Int} (denotes : Denotes cs value) :
      Denotes ('(' :: (cs ++ [')'])) value

namespace Denotes

variable {cs : List Char} {value other : Int}

theorem numeral_ne_cons {n : Nat} {c : Char} (number : Numeral.python.value? (c :: cs) = some n)
    (mark : c.isDigit = false) : False := by
  obtain ⟨_, _, same, digit⟩ := Numeral.Style.head_isDigit number
  cases same
  exact Bool.false_ne_true (mark.symm.trans digit)

theorem unique (denotes : Denotes cs value) (again : Denotes cs other) : other = value := by
  induction denotes generalizing other with
  | numeral number =>
    cases again with
    | numeral repeated => rw [Option.some.inj (number.symm.trans repeated)]
    | negated | bracketed => exact (numeral_ne_cons number rfl).elim
  | negated _ ih =>
    cases again with
    | numeral number => exact (numeral_ne_cons number rfl).elim
    | negated inner => rw [ih inner]
  | @bracketed cs value _ ih =>
    generalize same : '(' :: (cs ++ [')']) = text at again
    cases again with
    | numeral number =>
      rw [← same] at number
      exact (numeral_ne_cons number rfl).elim
    | negated => exact absurd (List.cons.inj same).1 (by decide)
    | bracketed inner =>
      obtain rfl := (List.append_inj' (List.cons.inj same).2 rfl).1
      exact ih inner

theorem toString (value : Int) : Denotes (toString value).toList value := by
  rw [Int.toString_eq_repr, Int.repr_eq_if]
  split
  next positive =>
    have whole := Denotes.numeral (Numeral.python.value?_repr value.toNat)
    rwa [Int.toNat_of_nonneg positive] at whole
  next negative =>
    have whole := (Denotes.numeral (Numeral.python.value?_repr (-value).toNat)).negated
    rw [Int.toNat_of_nonneg (by omega), Int.neg_neg] at whole
    rwa [String.toList_append]

end Denotes

/-- The arguments of a call: what stands between the commas, without blanks in front. -/
def arguments (cs : List Char) : List (List Char) :=
  (cs.splitOn ',').map fun piece => piece.dropWhile (· = ' ')

/-- How many steps lead from a start to a stop, the last one reaching or passing it. -/
def rangeLength (start stop step : Int) : Nat :=
  (((if 0 < step then stop - start else start - stop) + step.natAbs - 1) / step.natAbs).toNat

def range (start stop step : Int) : List Int :=
  (List.range (rangeLength start stop step)).map fun k : Nat => start + k * step

/-- The numbers of the range whose arguments have been written. -/
inductive Enumerates (args : List Char) : List Int → Prop where
  | stop {last : List Char} {stop : Int} (split : arguments args = [last])
      (stopped : Denotes last stop) : Enumerates args (range 0 stop 1)
  | bounds {first last : List Char} {start stop : Int} (split : arguments args = [first, last])
      (started : Denotes first start) (stopped : Denotes last stop) :
      Enumerates args (range start stop 1)
  | stepped {first last pace : List Char} {start stop step : Int}
      (split : arguments args = [first, last, pace]) (started : Denotes first start)
      (stopped : Denotes last stop) (paced : Denotes pace step) (moving : step ≠ 0) :
      Enumerates args (range start stop step)

theorem Enumerates.unique {args : List Char} {values others : List Int}
    (enumerates : Enumerates args values) (again : Enumerates args others) : others = values := by
  cases enumerates with
  | stop split stopped =>
    cases again with
    | stop repeated other =>
      cases split.symm.trans repeated
      rw [stopped.unique other]
    | bounds repeated | stepped repeated => cases split.symm.trans repeated
  | bounds split started stopped =>
    cases again with
    | bounds repeated first last =>
      cases split.symm.trans repeated
      rw [started.unique first, stopped.unique last]
    | stop repeated | stepped repeated => cases split.symm.trans repeated
  | stepped split started stopped paced =>
    cases again with
    | stepped repeated first last pace =>
      cases split.symm.trans repeated
      rw [started.unique first, stopped.unique last, paced.unique pace]
    | stop repeated | bounds repeated => cases split.symm.trans repeated

variable {start stop step value last : Int} {op : CompareOp}

def rangeStop (op : CompareOp) (last : Int) : Int :=
  match op with
  | .le => last + 1
  | .ge => last - 1
  | _ => last

variable {cx : Context} {bound : Expr} {number : Int} {loop : Counting}

variable {init : Option Stmt} {condition : Option Expr} {update : List Expr} {body : List Stmt}

theorem run_forLines_of_counting (before inside : Render (List String))
    (accepted : counting? init condition update body = .ok (some loop)) (cx : Context) :
    (forLines init condition update body before inside).run.run cx =
      (rangeLines loop inside).run.run cx := by
  rw [forLines, accepted]
  rfl

theorem forLines_range {args : String} {before inside : Render (List String)}
    {lines : List String} {between after : Context}
    (accepted : counting? init condition update body = .ok (some loop))
    (written : (rangeArgs loop).run.run cx = .ok (.ok args, between))
    (ends : (forLines init condition update body before inside).run.run cx =
      .ok (.ok lines, after)) :
    ∃ name header rest, cx.line ("for " ++ name ++ " in range(" ++ args ++ "):") = .ok header ∧
      lines = header :: rest := by
  rw [run_forLines_of_counting before inside accepted, rangeLines,
    Trial.run_bind_of_ok written] at ends
  obtain ⟨_, inner, -⟩ := Render.run_inScope_eq_ok ends
  obtain ⟨name, declared, named, suited⟩ := Trial.bind_eq_ok.mp inner
  obtain ⟨_, _, chosen, same⟩ := Render.bind_eq_ok.mp named
  cases same
  obtain ⟨_, _, suited, same⟩ := Render.bind_eq_ok.mp suited
  cases same
  obtain ⟨header, opened, first, suited⟩ := Render.bind_eq_ok.mp suited
  obtain ⟨_, _, _, suited⟩ := Render.bind_eq_ok.mp suited
  obtain ⟨_, _, _, suited⟩ := Render.bind_eq_ok.mp suited
  cases suited
  obtain ⟨spelled, rfl⟩ := Render.run_line_eq_ok.mp first
  have contained : (rangeArgs loop).Orderly .python .contained :=
    (rangeArgs_consulting (.inl trivial)).orderly
  have declaring : (declareScalar loop.name loop.type).Orderly .python .declaring := .declareFor _
  have frame := declaring.frame chosen
  refine ⟨name, header, _, ?_, rfl⟩
  rw [← (contained.frame written).line_eq]
  exact (frame.line_eq _).symm.trans spelled

end Python

end Retarget
