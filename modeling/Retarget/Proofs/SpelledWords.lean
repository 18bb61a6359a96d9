import Retarget.Proofs.CSpelling
import Retarget.Proofs.LeafWords
import Retarget.Proofs.PythonSpelling

/-!
# The words of spelled texts

A text that a renderer spells from leaves without words of the library is closed: every word of the
library in it is covered by the capabilities in use.
-/

namespace Retarget

open Text Degraded Reading

variable {cs : List Char} {escaped : Bool} {mark : Char}

namespace Caps

theorem empty_le (caps : Caps) : ({} : Caps) ≤ caps := by
  intro capability used
  cases capability <;> cases used

theorem insert_empty_le {caps : Caps} {capability : Capability}
    (used : caps.contains capability = true) : ({} : Caps).insert capability ≤ caps := by
  intro other member
  cases capability <;> cases other <;> first | exact used | cases member

end Caps

section Conversions

def convertWith {σ : Type} (convert : σ → List Char → Char → List Char × σ) :
    Option (List Char) → σ → List Char → List Char
  | spec, _, [] => (spec.getD []).reverse
  | none, state, c :: cs =>
    if c = '%' then convertWith convert (some ['%']) state cs
    else c :: convertWith convert none state cs
  | some spec, state, c :: cs =>
    if c.isAlpha || c = '%' then
      let (text, later) := convert state spec.reverse c
      text ++ convertWith convert none later cs
    else if c = ',' then convertWith convert (some spec) state cs
    else convertWith convert (some (c :: spec)) state cs

/-- Characters without a quote, a backslash or a line feed. -/
def areInert (cs : List Char) : Bool :=
  cs.all fun c => c ≠ '"' && c ≠ '\\' && c ≠ '\n'

theorem quoteFrom_of_areInert {c : Char} (inert : areInert (c :: cs) = true) :
    quoteFrom '"' escaped (c :: cs) = some false := by
  induction cs generalizing c escaped with
  | nil =>
    simp only [areInert, List.all_cons, List.all_nil, Bool.and_true, Bool.and_eq_true,
      decide_eq_true_eq] at inert
    simp [quoteFrom, inert]
  | cons next rest ih =>
    rw [areInert, List.all_cons, Bool.and_eq_true] at inert
    obtain ⟨first, others⟩ := inert
    simp only [Bool.and_eq_true, decide_eq_true_eq] at first
    have reached : quoteFrom '"' false (next :: rest) = some false := ih others
    rw [quoteFrom]
    simpa [first] using reached

theorem areInert_of_isAlpha {c : Char} (letter : c.isAlpha = true) : areInert [c] = true := by
  have others : c ≠ '"' ∧ c ≠ '\\' ∧ c ≠ '\n' := by
    refine ⟨?_, ?_, ?_⟩ <;> rintro rfl <;> cases letter
  simp [areInert, others]

def KeepsQuote {σ : Type} (convert : σ → List Char → Char → List Char × σ) : Prop :=
  ∀ state spec c escaped, (c.isAlpha || c = '%') = true →
    quoteFrom '"' false spec = some escaped →
      quoteFrom '"' false (convert state spec c).1 = some false

/-- Converting a body keeps the quote of its literal. The flags of an open conversion are written
later; until then they are known to lead to the same place as what was read. -/
theorem quoteFrom_convertWith {σ : Type} {convert : σ → List Char → Char → List Char × σ}
    (keeps : KeepsQuote convert) : ∀ (state : σ) (escaped : Bool), isBody '"' escaped cs = true →
      quoteFrom '"' escaped (convertWith convert none state cs) = some false ∧
        ∀ spec, quoteFrom '"' false spec.reverse = some escaped →
          quoteFrom '"' false (convertWith convert (some spec) state cs) = some false := by
  induction cs with
  | nil =>
    intro state escaped body
    cases escaped with
    | true => cases body
    | false => exact ⟨rfl, fun spec flags => flags⟩
  | cons c cs ih =>
    intro state escaped body
    obtain ⟨rest, read, known⟩ := isBody_cons body
    have unescaped (plain : c ∉ escapes) : escaped = false := by
      cases escaped with
      | true => exact absurd (known rfl) plain
      | false => rfl
    constructor
    · unfold convertWith
      split
      next percent =>
        subst percent
        cases unescaped (by decide)
        exact (ih state false rest).2 ['%'] rfl
      next =>
        have whole := quoteFrom_append '"' escaped [c] (convertWith convert none state cs)
        rw [read] at whole
        exact whole.trans (ih state _ rest).1
    · intro spec flags
      unfold convertWith
      split
      next ends =>
        have later : isBody '"' false cs = true := by
          have notBackslash : c ≠ '\\' := by
            rintro rfl
            exact absurd ends (by decide)
          simpa [notBackslash] using rest
        rw [quoteFrom_append, keeps state spec.reverse c escaped ends flags]
        exact (ih _ false later).1
      next =>
        split
        next comma =>
          subst comma
          cases unescaped (by decide)
          exact (ih state false rest).2 spec flags
        next =>
          apply (ih state _ rest).2 (c :: spec)
          rw [List.reverse_cons, quoteFrom_append, flags]
          exact read

/-- Writing every percent sign twice keeps the quote of a literal. -/
theorem quoteFrom_respell (body : isBody '"' escaped cs = true) :
    quoteFrom '"' escaped (cs.flatMap fun c => if c = '%' then ['%', '%'] else [c]) =
      some false := by
  induction cs generalizing escaped with
  | nil =>
    cases escaped with
    | true => cases body
    | false => rfl
  | cons c cs ih =>
    obtain ⟨rest, read, known⟩ := isBody_cons body
    rw [List.flatMap_cons, quoteFrom_append]
    by_cases percent : c = '%'
    · subst percent
      cases escaped with
      | true => exact absurd (known rfl) (by decide)
      | false =>
        exact ih rest
    · rw [if_neg percent, read]
      exact ih rest

end Conversions

namespace C

variable {caps later : Caps}

def convertOne (types : List ValueType) (spec : List Char) (c : Char) :
    List Char × List ValueType :=
  let (text, takesArgument) := convertSpec spec (types.headD .unknown) c
  (text, if takesArgument then types.tail else types)

theorem convertFrom_eq (spec : Option (List Char)) (types : List ValueType) (cs : List Char) :
    convertFrom spec types cs = convertWith convertOne spec types cs := by
  induction cs generalizing spec types with
  | nil => cases spec <;> rfl
  | cons c cs ih => cases spec <;> simp only [convertFrom, convertWith, convertOne, endsFlags, ih]

theorem convertOne_keepsQuote : KeepsQuote convertOne := by
  intro types spec c escaped ends flags
  have lengthened (next : Char) (rest : List Char) (inert : areInert (next :: rest) = true) :
      quoteFrom '"' false (spec ++ next :: rest) = some false := by
    rw [quoteFrom_append, flags]
    exact quoteFrom_of_areInert inert
  have letters (type : ValueType) :
      quoteFrom '"' false (spec ++ (conversionLetters type).toList) = some false := by
    cases type <;> exact lengthened _ _ (by decide)
  have kept : areInert [c] = true := by
    rcases Bool.or_eq_true_iff.mp ends with letter | percent
    · exact areInert_of_isAlpha letter
    · rw [decide_eq_true_eq.mp percent]
      decide
  unfold convertOne convertSpec
  dsimp only
  split
  · rfl
  · rfl
  · split <;> exact lengthened _ _ (by decide)
  · exact lengthened _ _ (by decide)
  · exact lengthened _ _ (by decide)
  · split
    · exact letters _
    · exact lengthened _ _ kept
  · split
    · exact letters _
    · exact lengthened _ _ kept
  · exact lengthened _ _ kept

theorem Formatted.quoteFrom_eq {text : String} (formatted : Formatted (Leaf.Lexical .c caps) text) :
    quoteFrom '"' false text.toList = some false := by
  induction formatted with
  | nil => rfl
  | newline => decide
  | specifier type => cases type <;> decide
  | literal fine =>
    rw [respell, String.toList_ofList]
    exact quoteFrom_respell fine.1
  | converted types fine =>
    rw [convertFormat, String.toList_ofList, convertFrom_eq]
    exact (quoteFrom_convertWith convertOne_keepsQuote types false fine.1).1
  | append _ _ first second =>
    rw [String.toList_append, quoteFrom_append, first]
    exact second

theorem closed_integerText_append {table : List (String × Capability)} {digits tail : String}
    (numeral : isNumeral digits.toList = true)
    (plain : ∀ c ∈ tail.toList, isNameChar c = true ∨ c = '.') :
    Closed table .c caps false (integerText digits ++ tail) := by
  have kept : Closed table .c caps false (digits ++ tail) := by
    apply closed_of_isNumeral
    rw [String.toList_append]
    exact isNumeral_append numeral plain
  unfold integerText
  split
  next value _ =>
    split
    · exact closed_toString_append value plain
    · exact kept
  next => exact kept

/-- What the tables of own texts name is in use. -/
structure Tables : Prop where
  own : ∀ text ∈ ownTexts, Closed (libraryWords .c) .c {} false text
  lead : ∀ mark ∈ leads, Leads (libraryWords .c) .c {} false mark
  joint : ∀ mark ∈ joints, Joins (libraryWords .c) .c {} false mark
  tail : ∀ mark ∈ tails, Finishes (libraryWords .c) .c {} false mark
  libraryText : ∀ entry ∈ libraryTexts,
    Closed (libraryWords .c) .c (({} : Caps).insert entry.2) false entry.1
  libraryLead : ∀ entry ∈ libraryLeads,
    Leads (libraryWords .c) .c (({} : Caps).insert entry.2) false entry.1

theorem tables : Tables := by
  constructor <;> decide +kernel

theorem Spelled.closed {text : String} (spelled : Spelled (Leaf.Lexical .c caps) later text)
    (grown : caps ≤ later) : Closed (libraryWords .c) .c later false text := by
  have least : ({} : Caps) ≤ later := Caps.empty_le later
  have letters (tail : String) (known : tail ∈ ["LL", "f"]) :
      ∀ c ∈ tail.toList, isNameChar c = true ∨ c = '.' := by
    have all : ∀ tail ∈ ["LL", "f"], IsIdentifier tail := by decide
    exact fun c member => .inl ((all tail known).2 c member)
  induction spelled with
  | own known => exact (tables.own _ known).mono least
  | name fine => exact closed_of_isIdentifier fine.1 (fine.2.mono least)
  | measured fine => exact fine.mono grown
  | @integer digits fine =>
    have whole : integerText digits ++ "" = integerText digits := String.append_empty
    rw [← whole]
    exact closed_integerText_append fine fun c member => by cases member
  | long fine => exact closed_integerText_append fine (letters "LL" (by decide))
  | decimal fine => exact closed_of_isNumeral (isNumeral_decimalText fine)
  | float fine =>
    apply closed_of_isNumeral
    rw [String.toList_append]
    exact isNumeral_append (isNumeral_decimalText fine) (letters "f" (by decide))
  | count n => exact closed_of_isNumeral (isNumeral_toString n)
  | letter fine =>
    exact closed_between (by decide) (by decide) (quoteFrom_of_isBody fine.1)
  | text fine =>
    exact closed_between (by decide) (by decide) (quoteFrom_of_isBody fine.1)
  | format formatted =>
    exact closed_between (by decide) (by decide) formatted.quoteFrom_eq
  | lead known _ ih => exact ih.lead ((tables.lead _ known).mono least)
  | joint known _ _ first second => exact first.joint ((tables.joint _ known).mono least) second
  | tail known _ ih => exact ih.finish ((tables.tail _ known).mono least)
  | @extent array index _ _ first second =>
    have opening : Joins (libraryWords .c) .c later false "[" :=
      (tables.joint _ (by decide)).mono least
    have closing : Finishes (libraryWords .c) .c later false "]" :=
      (tables.tail _ (by decide)).mono least
    have whole : array ++ ("[" ++ index ++ "]") = array ++ "[" ++ index ++ "]" := by
      simp only [String.append_assoc]
    rw [whole]
    exact (first.joint opening second).finish closing
  | libraryText known used =>
    exact (tables.libraryText _ known).mono (Caps.insert_empty_le used)
  | libraryLead known used _ ih =>
    exact ih.lead ((tables.libraryLead _ known).mono (Caps.insert_empty_le used))

end C

namespace Python

variable {style : Style} {caps later : Caps} {inside : Bool} {text : String}

/-- The rules by which a Python text is read: those of the language, and the bare ones where a
literal has lost its quote. -/
def styles : List Style :=
  [.python, .bare]

section Tables

/-- What the tables of own texts name is in use, in each style and inside of a field too. -/
structure Tables : Prop where
  quotes : ∀ inside, ∀ entry ∈ quotes, Leads (libraryWords .python) .bare {} inside entry.2 ∧
    Finishes (libraryWords .python) .bare {} inside entry.2
  own : ∀ style ∈ styles, ∀ inside, ∀ text ∈ ownTexts,
    Closed (libraryWords .python) style {} inside text
  lead : ∀ style ∈ styles, ∀ inside, ∀ mark ∈ leads,
    Leads (libraryWords .python) style {} inside mark
  joint : ∀ style ∈ styles, ∀ inside, ∀ mark ∈ ":" :: joints,
    Joins (libraryWords .python) style {} inside mark
  tail : ∀ style ∈ styles, ∀ inside, ∀ mark ∈ tails,
    Finishes (libraryWords .python) style {} inside mark
  libraryText : ∀ style ∈ styles, ∀ inside, ∀ entry ∈ libraryTexts,
    Closed (libraryWords .python) style (({} : Caps).insert entry.2) inside entry.1
  libraryLead : ∀ style ∈ styles, ∀ inside, ∀ function ∈ libraryFunctions,
    Leads (libraryWords .python) style (({} : Caps).insert .math) inside
      ("math." ++ function ++ "(")

theorem tables : Tables := by
  constructor <;> decide +kernel

end Tables

section Literals

theorem lineFeed_not_mem_of_quoteFrom {last : Bool} (kept : quoteFrom mark escaped cs = some last) :
    '\n' ∉ cs := by
  induction cs generalizing escaped with
  | nil => simp
  | cons c cs ih =>
    rw [quoteFrom] at kept
    split at kept
    · cases kept
    next other =>
      have notFeed : '\n' ≠ c := by
        rintro rfl
        simp at other
      simp [notFeed, ih kept]

/-- A literal whose body keeps its quote has no words by the rules of the language, and no words of
the library by the bare ones if the body is part of a text without them. -/
theorem closed_literal {sign body : String} (known : (mark, sign) ∈ quotes) (read : style ∈ styles)
    (kept : quoteFrom mark false body.toList = some false) (free : Free .python text)
    (inText : body.toList <:+: text.toList) :
    Closed (libraryWords .python) style caps inside (sign ++ body ++ sign) := by
  cases style with
  | c => cases read with | tail _ read => cases read with | tail _ read => cases read
  | python => exact closed_between known (by decide) kept
  | bare =>
    obtain ⟨leads, finishes⟩ := tables.quotes inside _ known
    have closed : Closed (libraryWords .python) .bare caps inside body :=
      closed_of_free free inText (lineFeed_not_mem_of_quoteFrom kept)
    exact (closed.lead (leads.mono (Caps.empty_le caps))).finish
      (finishes.mono (Caps.empty_le caps))

/-- A body stays one without the blanks at its end: a blank is never escaped. -/
theorem quoteFrom_dropTailWhile (body : isBody mark false cs = true) :
    quoteFrom mark false (dropTailWhile (· = ' ') cs) = some false := by
  rw [← dropTailWhile_append_tail (· = ' ') cs] at body
  obtain ⟨last, kept, ends⟩ := isBody_append body
  cases last with
  | false => exact kept
  | true =>
    cases blanks : (cs.reverse.takeWhile (· = ' ')).reverse with
    | nil =>
      rw [blanks] at ends
      cases ends
    | cons c rest =>
      have blank : c ∈ cs.reverse.takeWhile (· = ' ') := by
        rw [← List.mem_reverse, blanks]
        exact List.mem_cons_self
      rw [blanks] at ends
      obtain ⟨-, -, known⟩ := isBody_cons ends
      have isBlank := List.mem_takeWhile_imp blank
      rw [decide_eq_true_eq] at isBlank
      rw [isBlank] at known
      exact absurd (known rfl) (by decide)

theorem isNumeral_integerText {digits : String} (numeral : isNumeral digits.toList = true) :
    isNumeral (integerText digits).toList = true := by
  unfold integerText
  split
  next c cs whole =>
    split
    next digit =>
      rw [whole, isNumeral, if_neg (by decide)] at numeral
      obtain ⟨-, continues⟩ := Bool.and_eq_true_iff.mp numeral
      have written : ("0o" ++ String.ofList (c :: cs)).toList = '0' :: 'o' :: c :: cs := by simp
      rw [written, isNumeral, if_neg (by decide)]
      exact continues
    next => exact numeral
  next => exact numeral

end Literals

theorem Spelled.closed (spelled : Spelled (Leaf.Lexical .python caps) later text)
    (read : style ∈ styles) : Closed (libraryWords .python) style later inside text := by
  have least : ({} : Caps) ≤ later := Caps.empty_le later
  have joins {mark : String} (known : mark ∈ ":" :: joints) :
      Joins (libraryWords .python) style later inside mark :=
    (tables.joint style read inside mark known).mono least
  have finishes {mark : String} (known : mark ∈ tails) :
      Finishes (libraryWords .python) style later inside mark :=
    (tables.tail style read inside mark known).mono least
  induction spelled with
  | own known => exact (tables.own style read inside _ known).mono least
  | name fine => exact closed_of_isIdentifier fine.1 (fine.2.mono least)
  | integer fine => exact closed_of_isNumeral (isNumeral_integerText fine)
  | decimal fine => exact closed_of_isNumeral (isNumeral_decimalText fine)
  | number n => exact closed_toString n
  | letter fine =>
    exact closed_literal (by decide) read (quoteFrom_of_isBody fine.1) fine.2 (List.infix_refl _)
  | text fine =>
    exact closed_literal (by decide) read (quoteFrom_of_isBody fine.1) fine.2 (List.infix_refl _)
  | @label body fine =>
    have kept := quoteFrom_dropTailWhile fine.1
    have inText := (isPrefix_dropTailWhile (· = ' ') body.toList).isInfix
    rw [← String.toList_ofList (l := dropTailWhile _ _)] at kept inText
    exact closed_literal (by decide) read kept fine.2 inText
  | lead known _ ih => exact ih.lead ((tables.lead style read inside _ known).mono least)
  | joint known _ _ first second =>
    exact first.joint (joins (List.mem_cons_of_mem _ known)) second
  | tail known _ ih => exact ih.finish (finishes known)
  | slice _ _ _ first second third =>
    exact ((first.joint (joins (by decide)) second).joint (joins (by decide)) third).finish
      (finishes (by decide))
  | libraryText known used =>
    exact (tables.libraryText style read inside _ known).mono (Caps.insert_empty_le used)
  | libraryLead known used _ ih =>
    exact ih.lead ((tables.libraryLead style read inside _ known).mono (Caps.insert_empty_le used))
  | bareValue fine => exact fine.elim
  | bareText fine => exact fine.elim

end Python

end Retarget
