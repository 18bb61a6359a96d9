import Retarget.Proofs.PythonOperators

/-!
# Contents of string literals

Which code points a Python literal stands for. Its body is read character by character, and an
escape may still be open where the body ends: an octal escape takes up to three digits, so it takes
one of the text that follows if it has fewer.
-/

namespace Retarget.Python

open Text

/-- Where the reader of a literal's body stands: outside escapes, behind a backslash, in an octal
escape with room for more digits, or in a code point with digits missing. -/
inductive Escape where
  | clear
  | slash
  | octal (room value : Nat)
  | code (missing value : Nat)
  deriving DecidableEq

namespace Escape

def digit? (radix : Nat) (c : Char) : Option Nat :=
  (digitValue c).filter (· < radix)

/-- The code points of an escape that is one letter. One that Python does not know stands for
itself and its backslash. -/
def letter? : Char → Option (List Nat)
  | 'b' => some [8]
  | 't' => some [9]
  | 'n' => some [10]
  | 'f' => some [12]
  | 'r' => some [13]
  | '"' => some [34]
  | '\'' => some [39]
  | '\\' => some [92]
  | 's' => some [92, 115]
  | _ => none

def begin? (quote : Char) (ended : List Nat) (c : Char) : Option (List Nat × Escape) :=
  if c = quote ∨ c = '\n' then none
  else if c = '\\' then some (ended, slash)
  else some (ended ++ [c.toNat], clear)

/-- The code points that a character completes, and where the reader stands behind it. -/
def step? (quote : Char) : Escape → Char → Option (List Nat × Escape)
  | clear, c => begin? quote [] c
  | slash, c =>
    if c = 'u' then some ([], code 4 0)
    else match digit? 8 c with
      | some d => some ([], octal 2 d)
      | none => (letter? c).map fun points => (points, clear)
  | octal 0 value, c => begin? quote [value] c
  | octal (room + 1) value, c =>
    match digit? 8 c with
    | some d => some ([], octal room (8 * value + d))
    | none => begin? quote [value] c
  | code missing value, c =>
    (digit? 16 c).map fun d =>
      if missing ≤ 1 then ([16 * value + d], clear) else ([], code (missing - 1) (16 * value + d))

def pending? : Escape → Option (List Nat)
  | clear => some []
  | octal _ value => some [value]
  | slash | code .. => none

def absorbs : Escape → List Char → Bool
  | octal (_ + 1) _, c :: _ => (digit? 8 c).isSome
  | _, _ => false

/-- The code points that a text completes, and where the reader stands behind it. -/
def decode (quote : Char) (escape : Escape) : List Char → Option (List Nat × Escape)
  | [] => some ([], escape)
  | c :: cs =>
    (escape.step? quote c).bind fun step =>
      (decode quote step.2 cs).map fun later => (step.1 ++ later.1, later.2)

end Escape

def content? (quote : Char) (body : List Char) : Option (List Nat) :=
  (Escape.clear.decode quote body).bind fun reached => reached.2.pending?.map (reached.1 ++ ·)

namespace Escape

variable {quote c : Char} {escape next : Escape} {out points : List Nat} {body rest : List Char}

theorem decode_append (quote : Char) (escape : Escape) (first rest : List Char) :
    escape.decode quote (first ++ rest) =
      (escape.decode quote first).bind fun reached =>
        (reached.2.decode quote rest).map fun later => (reached.1 ++ later.1, later.2) := by
  induction first generalizing escape with
  | nil =>
    change escape.decode quote rest =
      (escape.decode quote rest).map fun later => ([] ++ later.1, later.2)
    cases escape.decode quote rest <;> rfl
  | cons c first ih =>
    simp only [List.cons_append, decode]
    cases escape.step? quote c with
    | none => rfl
    | some step =>
      simp only [Option.bind_some, ih]
      cases step.2.decode quote first with
      | none => rfl
      | some reached =>
        simp only [Option.bind_some, Option.map_some, Option.map_map]
        congr 1
        funext later
        simp

theorem content?_eq_some_iff : content? quote body = some points ↔
      ∃ read escape ended, clear.decode quote body = some (read, escape) ∧
        escape.pending? = some ended ∧ read ++ ended = points := by
  constructor
  · intro found
    obtain ⟨⟨read, escape⟩, decoded, found⟩ := Option.bind_eq_some_iff.mp found
    obtain ⟨ended, ends, joined⟩ := Option.map_eq_some_iff.mp found
    exact ⟨read, escape, ended, decoded, ends, joined⟩
  · rintro ⟨read, escape, ended, decoded, ends, rfl⟩
    simp [content?, decoded, ends]

/-! ## One text behind another -/

theorem absorbs_of_no_digit (escape : Escape) (noDigit : digit? 8 c = none) (rest : List Char) :
    escape.absorbs (c :: rest) = false := by
  cases escape with
  | clear | slash | code => rfl
  | octal room value =>
    cases room with
    | zero => rfl
    | succ room => rw [absorbs, noDigit, Option.isSome_none]

/-- Behind an escape that may end, a character is read as if it stood alone, unless the escape
takes it. -/
theorem step?_of_not_absorbs (ends : escape.pending? = some out)
    (apart : escape.absorbs (c :: rest) = false) : escape.step? quote c = begin? quote out c := by
  cases escape with
  | clear =>
    cases ends
    rfl
  | slash | code => cases ends
  | octal room value =>
    cases ends
    cases room with
    | zero => rfl
    | succ room =>
      rw [absorbs, Option.isSome_eq_false_iff, Option.isNone_iff_eq_none] at apart
      rw [step?, apart]

theorem begin?_eq_map (quote : Char) (out : List Nat) (c : Char) :
    begin? quote out c = (begin? quote [] c).map fun step => (out ++ step.1, step.2) := by
  unfold begin?
  split
  · rfl
  · split <;> simp

theorem decode_of_not_absorbs (quote : Char) (ends : escape.pending? = some out)
    (apart : escape.absorbs body = false) (filled : body ≠ []) : escape.decode quote body =
      (clear.decode quote body).map fun reached => (out ++ reached.1, reached.2) := by
  cases body with
  | nil => exact (filled rfl).elim
  | cons c rest =>
    have alone : clear.step? quote c = begin? quote [] c := rfl
    rw [decode, decode, step?_of_not_absorbs ends apart, alone, begin?_eq_map]
    cases begin? quote [] c with
    | none => rfl
    | some step =>
      simp only [Option.map_some, Option.bind_some, Option.map_map]
      congr 1
      funext later
      simp

theorem digit?_ne {radix d : Nat} (found : digit? radix c = some d) {other : Char}
    (unknown : digit? radix other = none) : c ≠ other := by
  rintro rfl
  cases found.symm.trans unknown

theorem begin?_of_digit? {radix d : Nat} (found : digit? radix c = some d) :
    begin? '"' [] c = some ([c.toNat], clear) := by
  have apart (other : Char) (none : digitValue other = none) : c ≠ other :=
    digit?_ne found (by rw [digit?, none]; rfl)
  rw [begin?, if_neg (not_or.mpr ⟨apart '"' (by decide), apart '\n' (by decide)⟩),
    if_neg (apart '\\' (by decide))]
  rfl

/-- A text that can be read alone can be read behind an escape that may end. It gives fewer code
points there if the escape takes its first character, and its own otherwise. -/
theorem decode_behind (ends : escape.pending? = some out)
    (read : content? '"' body = some points) :
    ∃ more next ended, escape.decode '"' body = some (more, next) ∧ next.pending? = some ended ∧
      (more ++ ended).length ≤ (out ++ points).length ∧
      (escape.absorbs body = true → (more ++ ended).length < (out ++ points).length) ∧
      (escape.absorbs body = false → more ++ ended = out ++ points) := by
  induction body generalizing escape out points with
  | nil =>
    obtain ⟨first, last, ended, decoded, lastEnds, rfl⟩ := content?_eq_some_iff.mp read
    cases decoded
    cases lastEnds
    refine ⟨[], escape, out, rfl, ends, by simp, ?_, fun _ => by simp⟩
    intro absorbed
    cases escape <;> simp [absorbs] at absorbed
  | cons c rest ih =>
    obtain ⟨first, last, ended, decoded, lastEnds, rfl⟩ := content?_eq_some_iff.mp read
    cases absorbed : escape.absorbs (c :: rest) with
    | false =>
      have behind := decode_of_not_absorbs '"' ends absorbed (List.cons_ne_nil c rest)
      rw [decoded] at behind
      exact ⟨out ++ first, last, ended, behind, lastEnds, by simp, fun taken => (by cases taken),
        fun _ => by simp⟩
    | true =>
      -- The escape grows by the digit, and the rest stands behind a longer escape.
      obtain ⟨room, value, rfl⟩ : ∃ room value, escape = octal (room + 1) value := by
        unfold absorbs at absorbed
        split at absorbed
        · exact ⟨_, _, rfl⟩
        · cases absorbed
      cases ends
      obtain ⟨d, digit⟩ := Option.isSome_iff_exists.mp absorbed
      have alone : clear.step? '"' c = some ([c.toNat], clear) := begin?_of_digit? digit
      rw [decode, alone, Option.bind_some] at decoded
      obtain ⟨⟨later, lastLater⟩, decodedRest, same⟩ := Option.map_eq_some_iff.mp decoded
      cases same
      have readRest : content? '"' rest = some (later ++ ended) :=
        content?_eq_some_iff.mpr ⟨later, lastLater, ended, decodedRest, lastEnds, rfl⟩
      obtain ⟨more, next, endedNext, decodedNext, nextEnds, short, -, -⟩ :=
        ih (show (octal room (8 * value + d)).pending? = some [8 * value + d] from rfl) readRest
      refine ⟨more, next, endedNext, ?_, nextEnds, ?_, fun _ => ?_, fun free => (by cases free)⟩
      · simp [decode, step?, digit, decodedNext]
      · simp only [List.length_append, List.length_cons, List.length_nil] at short ⊢
        omega
      · simp only [List.length_append, List.length_cons, List.length_nil] at short ⊢
        omega

theorem content?_blanks {count : Nat}
    (read : content? '"' (body ++ List.replicate (count + 1) ' ') = some points) :
    ∃ before, content? '"' body = some before ∧
      points = before ++ List.replicate (count + 1) 32 := by
  obtain ⟨first, last, ended, decoded, lastEnds, rfl⟩ := content?_eq_some_iff.mp read
  rw [decode_append] at decoded
  obtain ⟨⟨front, escape⟩, decodedBody, decoded⟩ := Option.bind_eq_some_iff.mp decoded
  obtain ⟨⟨later, lastLater⟩, decodedBlanks, same⟩ := Option.map_eq_some_iff.mp decoded
  cases same
  have blanks (count : Nat) : clear.decode '"' (List.replicate count ' ') =
      some (List.replicate count 32, clear) := by
    induction count with
    | zero => rfl
    | succ count ih =>
      have alone : clear.step? '"' ' ' = some ([32], clear) := by decide
      simp [List.replicate_succ, decode, alone, ih]
  have closes : ∃ out, escape.pending? = some out := by
    cases escape with
    | clear | octal => exact ⟨_, rfl⟩
    | slash | code =>
      have stuck : digit? 8 ' ' = none ∧ digit? 16 ' ' = none ∧ letter? ' ' = none := by decide
      simp [List.replicate_succ, decode, step?, stuck] at decodedBlanks
  obtain ⟨out, ends⟩ := closes
  have apart : escape.absorbs (List.replicate (count + 1) ' ') = false :=
    absorbs_of_no_digit escape (by decide) _
  rw [decode_of_not_absorbs '"' ends apart (by simp), blanks] at decodedBlanks
  cases decodedBlanks
  cases lastEnds
  exact ⟨front ++ out, content?_eq_some_iff.mpr ⟨front, escape, out, decodedBody, ends, rfl⟩,
    by simp⟩

/-! ## Literals as tokens -/

end Escape

/-- What is missing where the reader of a literal stands: nothing, the letter of an escape, or digits
of a code point. -/
inductive Missing where
  | nothing
  | letter
  | digits (count : Nat)
  deriving DecidableEq

namespace Missing

open Escape

def step? : Missing → Char → Option Missing
  | nothing, c => if c = '"' ∨ c = '\n' then none else some (if c = '\\' then letter else nothing)
  | letter, c =>
    if c = 'u' then some (digits 4)
    else if (digit? 8 c).isSome || (letter? c).isSome then some nothing
    else none
  | digits count, c =>
    if (digit? 16 c).isSome then some (if count ≤ 1 then nothing else digits (count - 1)) else none

def read? (missing : Missing) (cs : List Char) : Option Missing :=
  cs.foldlM step? missing

theorem read?_append (missing : Missing) (first rest : List Char) :
    missing.read? (first ++ rest) = (missing.read? first).bind (·.read? rest) :=
  List.foldlM_append

end Missing

namespace Escape

variable {quote c : Char} {escape next : Escape} {out : List Nat} {body : List Char}

def missing : Escape → Missing
  | clear | octal .. => .nothing
  | slash => .letter
  | code missing _ => .digits missing

theorem missing_step? (escape : Escape) (c : Char) :
    (escape.step? '"' c).map (fun step => step.2.missing) = escape.missing.step? c := by
  have begun (ended : List Nat) :
      (begin? '"' ended c).map (fun step => step.2.missing) = Missing.nothing.step? c := by
    simp only [begin?, Missing.step?]
    split
    · rfl
    · split <;> rfl
  cases escape with
  | clear => exact begun []
  | slash =>
    simp only [step?, missing, Missing.step?]
    split
    · rfl
    · cases digit? 8 c with
      | some d => rfl
      | none => cases letter? c <;> rfl
  | octal room value =>
    cases room with
    | zero => exact begun [value]
    | succ room =>
      rw [step?]
      cases found : digit? 8 c with
      | none => exact begun [value]
      | some d =>
        have alone := begun []
        rw [begin?_of_digit? found] at alone
        exact alone
  | code count value =>
    simp only [step?, missing, Missing.step?]
    cases digit? 16 c with
    | none => rfl
    | some d => by_cases last : count ≤ 1 <;> simp [last]

theorem missing_decode (escape : Escape) (cs : List Char) :
    (escape.decode '"' cs).map (fun reached => reached.2.missing) = escape.missing.read? cs := by
  induction cs generalizing escape with
  | nil => rfl
  | cons c cs ih =>
    rw [decode, Missing.read?, List.foldlM_cons, ← missing_step?]
    cases escape.step? '"' c with
    | none => rfl
    | some step =>
      refine Eq.trans ?_ (ih step.2)
      simp [Option.map_map, Function.comp_def]

theorem exists_content_iff {body : List Char} :
    (∃ points, content? '"' body = some points) ↔ Missing.nothing.read? body = some .nothing := by
  have missed := missing_decode .clear body
  rw [content?]
  change _ = Missing.nothing.read? body at missed
  rw [← missed]
  cases Escape.clear.decode '"' body with
  | none => simp
  | some reached =>
    obtain ⟨read, escape⟩ := reached
    cases escape <;> simp [pending?, missing]

theorem missing_eq_letter_iff : escape.missing = .letter ↔ escape = slash := by
  cases escape <;> simp [missing]

/-- A character of a body ends neither the line nor, unless it is escaped, the literal, and it is
escaping exactly if it is a backslash that is not escaped. -/
theorem step?_cases (steps : escape.step? '"' c = some (out, next)) :
    c ≠ '\n' ∧ (escape = slash ∨ c ≠ '"') ∧ (next = slash ↔ escape ≠ slash ∧ c = '\\') := by
  have missed := missing_step? escape c
  have apart {radix : Nat} (found : (digit? radix c).isSome = true) :
      c ≠ '\n' ∧ c ≠ '"' ∧ c ≠ '\\' := by
    obtain ⟨d, found⟩ := Option.isSome_iff_exists.mp found
    have other (mark : Char) (none : digitValue mark = none) : c ≠ mark :=
      digit?_ne found (by rw [digit?, none]; rfl)
    exact ⟨other _ (by decide), other _ (by decide), other _ (by decide)⟩
  rw [steps, Option.map_some] at missed
  simp only [Ne, ← missing_eq_letter_iff]
  generalize escape.missing = before at missed
  generalize next.missing = behind at missed
  cases before with
  | nothing =>
    rw [Missing.step?] at missed
    split at missed
    · cases missed
    next fits =>
      cases missed
      obtain ⟨noQuote, noEnd⟩ := not_or.mp fits
      exact ⟨noEnd, .inr noQuote, by simp⟩
  | letter =>
    rw [Missing.step?] at missed
    split at missed
    next isCode =>
      cases missed
      exact ⟨isCode ▸ by decide, .inl rfl, by simp⟩
    next =>
      split at missed
      next known =>
        cases missed
        refine ⟨?_, .inl rfl, by simp⟩
        rintro rfl
        cases known
      next => cases missed
  | digits count =>
    rw [Missing.step?] at missed
    split at missed
    next found =>
      obtain ⟨noEnd, noQuote, noBack⟩ := apart found
      refine ⟨noEnd, .inr noQuote, iff_of_false ?_ fun ⟨_, back⟩ => noBack back⟩
      rw [Option.some_inj.mp missed]
      split <;> simp
    next => cases missed

theorem advance_literal {escaped : Bool} (noEnd : c ≠ '\n') (inside : escaped = true ∨ c ≠ quote)
    (run : List Char) : lexis.advance (.literal quote escaped run) c =
      some ([], .literal quote (!escaped && c = '\\') (c :: run)) := by
  have stays : (!escaped && decide (c = quote)) = false := by
    obtain back | noQuote := inside
    · simp [back]
    · simp [noQuote]
  simp only [Lexis.advance, noEnd, if_false, stays, Bool.false_eq_true]

theorem scan_of_decode (decoded : escape.decode '"' body = some (out, next)) (run : List Char) :
    lexis.scan (.literal '"' (escape = slash) run) body =
      some ([], .literal '"' (next = slash) (body.reverse ++ run)) := by
  induction body generalizing escape out run with
  | nil =>
    cases decoded
    rfl
  | cons c rest ih =>
    obtain ⟨⟨first, between⟩, steps, decoded⟩ := Option.bind_eq_some_iff.mp decoded
    obtain ⟨⟨later, last⟩, decodedRest, same⟩ := Option.map_eq_some_iff.mp decoded
    cases same
    obtain ⟨noEnd, inside, escapes⟩ := step?_cases steps
    have flag : (!decide (escape = slash) && decide (c = '\\')) = decide (between = slash) := by
      rw [decide_eq_decide.mpr escapes, Bool.decide_and, decide_not]
    have advances := advance_literal noEnd (inside.imp_left decide_eq_true) run
    rw [flag] at advances
    simp [Lexis.scan, advances, ih decodedRest (c :: run)]

end Escape

theorem spells_literal {lead body : List Char}
    (opens : lexis.scan .between lead = some ([], .literal '"' false lead.reverse))
    (stays : lexis.scan (.literal '"' false lead.reverse) body =
      some ([], .literal '"' false (body.reverse ++ lead.reverse))) :
    lexis.Spells (lead ++ body ++ ['"']) [.literal (lead ++ body ++ ['"'])] := by
  have closes (run : List Char) : lexis.scan (.literal '"' false run) ['"'] =
      some ([], .closed ('"' :: run)) := rfl
  refine ⟨[], .closed ('"' :: (body.reverse ++ lead.reverse)), _, ?_, rfl, ?_, ?_⟩
  · rw [Lexis.scan_append, Lexis.scan_append, opens, Option.bind_some, stays, Option.map_some,
      Option.bind_some]
    simp only [Lexis.after_nil, closes, Option.map_some]
  · simp
  · exact lexis.steady_of_not_sign rfl (by simp [Token.isSign])

theorem spells_quoted {body : String} {points : List Nat}
    (read : content? '"' body.toList = some points) :
    lexis.Spells (quoted body).toList [.literal (quoted body).toList] := by
  obtain ⟨first, last, ended, decoded, ends, -⟩ := Escape.content?_eq_some_iff.mp read
  have notBack : last ≠ .slash := by
    rintro rfl
    cases ends
  have stays := Escape.scan_of_decode decoded ['"']
  rw [decide_eq_false notBack] at stays
  have split : (quoted body).toList = ['"'] ++ body.toList ++ ['"'] := by simp [quoted]
  rw [split]
  exact spells_literal (by decide) stays

end Retarget.Python
