import Mathlib.Data.Bool.AllAny
import Retarget.Text.Word

/-!
# Tokens of a program text

How a text is cut into words, numbers, quoted literals and signs, each as long as it can be.
-/

namespace Retarget

open Option (bind_some map_eq_some_iff map_map map_some)

variable {rest : List Char} {b c : Char}

inductive Token where
  | word (text : List Char)
  | number (text : List Char)
  | literal (text : List Char)
  | sign (text : List Char)
  deriving DecidableEq, Inhabited

namespace Token

def text : Token → String
  | word text | number text | literal text | sign text => String.ofList text

def isSign : Token → Bool
  | sign _ => true
  | _ => false

end Token

def brackets : List Char := ['(', ')', '[', ']']

def delimiters : List Char := [' ', ',', ':'] ++ brackets

-- Each delimiter is tried, not each character.
theorem isWordChar_of_mem_delimiters : ∀ d ∈ delimiters, Text.isWordChar d = false :=
  List.all_iff_forall_prop.mp (by decide)

theorem ne_of_mem_delimiters : ∀ d ∈ delimiters, d ≠ '.' ∧ d ≠ '+' ∧ d ≠ '-' :=
  List.all_iff_forall_prop.mp (by decide)

/-- The rules by which a language cuts a text into tokens. Delimiters are no parts of words and
numbers, and a bracket is a sign that no longer one begins with. -/
structure Lexis where
  isWordChar : Char → Bool
  continuesNumber : List Char → Char → Bool
  /-- The words that belong to a literal whose quote follows them directly. -/
  introducers : List (List Char)
  signs : List (List Char)
  delimiter_not_word : ∀ d ∈ delimiters, isWordChar d = false
  delimiter_not_number : ∀ d ∈ delimiters, ∀ run, continuesNumber run d = false
  bracket_sign : ∀ b ∈ brackets, [b] ∈ signs
  bracket_alone : ∀ b ∈ brackets, ∀ sign ∈ signs, sign.head? = some b → sign = [b]

/-- The token that is being read, last character first. -/
inductive Progress where
  | between
  | word (run : List Char)
  | number (run : List Char)
  | literal (quote : Char) (escaped : Bool) (run : List Char)
  | closed (run : List Char)
  | sign (run : List Char)
  deriving DecidableEq

namespace Lexis

open Text

variable (lexis : Lexis)

variable {p : Progress} {ended : List Token}

def isQuote (c : Char) : Bool :=
  c = '"' || c = '\''

def opensSign (run : List Char) : Bool :=
  lexis.signs.any fun sign => run.reverse.isPrefixOf sign

def start? (c : Char) : Option Progress :=
  if c.isWhitespace then some .between
  else if isQuote c then some (.literal c false [c])
  else if c.isDigit then some (.number [c])
  else if lexis.isWordChar c && !isDecimalDigit c then some (.word [c])
  else if lexis.opensSign [c] then some (.sign [c])
  else none

/-- The token that ends here, if there is one; a literal cannot end without its quote. -/
def pending? : Progress → Option (List Token)
  | .between => some []
  | .word run => some [.word run.reverse]
  | .number run => some [.number run.reverse]
  | .literal .. => none
  | .closed run => some [.literal run.reverse]
  | .sign run => if run.reverse ∈ lexis.signs then some [.sign run.reverse] else none

/-- End the token that is being read and begin the next one. -/
def turn (p : Progress) (c : Char) : Option (List Token × Progress) :=
  (lexis.pending? p).bind fun ended => (lexis.start? c).map fun next => (ended, next)

/-- The tokens that end before a character, and the progress after it. A quote directly after a
number, a literal or a word that introduces none is not read. -/
def advance (p : Progress) (c : Char) : Option (List Token × Progress) :=
  match p with
  | .between => lexis.turn p c
  | .word run =>
    if lexis.isWordChar c then some ([], .word (c :: run))
    else if isQuote c then
      if run.reverse ∈ lexis.introducers then some ([], .literal c false (c :: run)) else none
    else lexis.turn p c
  | .number run =>
    if lexis.continuesNumber run c then some ([], .number (c :: run))
    else if isQuote c then none else lexis.turn p c
  | .literal quote escaped run =>
    if c = '\n' then none
    else if !escaped && c = quote then some ([], .closed (c :: run))
    else some ([], .literal quote (!escaped && c = '\\') (c :: run))
  | .closed _ => if isQuote c then none else lexis.turn p c
  | .sign run =>
    -- A point before a digit belongs to the number.
    if run = ['.'] ∧ c.isDigit then some ([], .number [c, '.'])
    else if lexis.opensSign (c :: run) then some ([], .sign (c :: run))
    else lexis.turn p c

def after (read : List Token) (rest : List Token × Progress) : List Token × Progress :=
  (read ++ rest.1, rest.2)

def scan (p : Progress) : List Char → Option (List Token × Progress)
  | [] => some ([], p)
  | c :: cs => (lexis.advance p c).bind fun step => (scan step.2 cs).map (after step.1)

def tokens? (text : String) : Option (List Token) :=
  (lexis.scan .between text.toList).bind fun reached =>
    (lexis.pending? reached.2).map (reached.1 ++ ·)

def operand? (text : String) : Option Token :=
  match lexis.tokens? text with
  | some [token] => if !token.isSign && token.text = text then some token else none
  | _ => none

@[simp] theorem after_nil (rest : List Token × Progress) : after [] rest = rest := rfl

@[simp] theorem after_after (first second : List Token) (rest : List Token × Progress) :
    after first (after second rest) = after (first ++ second) rest := by simp [after]

theorem scan_append (p : Progress) (first rest : List Char) : lexis.scan p (first ++ rest) =
      (lexis.scan p first).bind fun reached =>
        (lexis.scan reached.2 rest).map (after reached.1) := by
  induction first generalizing p with
  | nil =>
    change lexis.scan p rest = (lexis.scan p rest).map (after [])
    cases lexis.scan p rest <;> rfl
  | cons c first ih =>
    simp only [List.cons_append, scan]
    cases lexis.advance p c with
    | none => rfl
    | some step =>
      simp only [bind_some, ih]
      cases lexis.scan step.2 first with
      | none => rfl
      | some reached =>
        simp only [bind_some, map_some, map_map, after]
        congr 1
        funext later
        exact after_after step.1 reached.1 later

theorem scan_between_cons (c : Char) (rest : List Char) :
    lexis.scan .between (c :: rest) = (lexis.start? c).bind fun next => lexis.scan next rest := by
  have begins : lexis.advance .between c = (lexis.start? c).map fun next => ([], next) := rfl
  simp only [scan, begins]
  cases lexis.start? c with
  | none => rfl
  | some next =>
    simp only [map_some, bind_some]
    cases lexis.scan next rest <;> rfl

theorem scan_of_turn
    (turns : lexis.advance p c = lexis.turn p c) (ends : lexis.pending? p = some ended)
    (rest : List Char) :
    lexis.scan p (c :: rest) = (lexis.scan .between (c :: rest)).map (after ended) := by
  rw [scan_between_cons]
  simp only [scan, turns, turn, ends, bind_some]
  cases lexis.start? c with
  | none => rfl
  | some next => rfl

theorem opensSign_bracket (bracket : b ∈ brackets) (c : Char) : lexis.opensSign [c, b] = false := by
  refine List.any_eq_false.mpr fun sign member opens => ?_
  obtain ⟨rest, rfl⟩ := List.isPrefixOf_iff_prefix.mp opens
  have alone := lexis.bracket_alone b bracket _ member rfl
  simp at alone

def Steady (p : Progress) : Prop :=
  ∀ d ∈ delimiters, lexis.advance p d = lexis.turn p d

theorem steady_of_not_sign
    (ends : lexis.pending? p = some ended) (noSign : ∀ token ∈ ended, token.isSign = false) :
    lexis.Steady p := by
  intro d member
  have noQuotes : ∀ d ∈ delimiters, isQuote d = false := List.all_iff_forall_prop.mp (by decide)
  have noQuote := noQuotes d member
  cases p with
  | between => rfl
  | word run => simp [advance, lexis.delimiter_not_word d member, noQuote]
  | number run => simp [advance, lexis.delimiter_not_number d member, noQuote]
  | literal quote escaped run => simp [pending?] at ends
  | closed run => simp [advance, noQuote]
  | sign run =>
    simp only [pending?] at ends
    split at ends
    · cases ends
      simpa [Token.isSign] using noSign _ (List.mem_singleton.mpr rfl)
    · cases ends

/-- A text gives these tokens, and the last of them ends where a delimiter follows. -/
def Spells (text : List Char) (spelled : List Token) : Prop :=
  ∃ read p ended, lexis.scan .between text = some (read, p) ∧ lexis.pending? p = some ended ∧
    read ++ ended = spelled ∧ lexis.Steady p

variable {lexis}

theorem tokens?_of_spells {text : String} {spelled : List Token}
    (spells : lexis.Spells text.toList spelled) : lexis.tokens? text = some spelled := by
  obtain ⟨read, p, ended, scanned, ends, rfl, _⟩ := spells
  simp [tokens?, scanned, ends]

theorem spells_of_operand? {text : String} {token : Token}
    (operand : lexis.operand? text = some token) :
    lexis.Spells text.toList [token] ∧ token.isSign = false ∧ token.text = text := by
  unfold operand? at operand
  split at operand
  next found cut =>
    split at operand
    next single =>
      cases operand
      simp only [Bool.and_eq_true, Bool.not_eq_true', decide_eq_true_eq] at single
      refine ⟨?_, single⟩
      simp only [tokens?, Option.bind_eq_some_iff, map_eq_some_iff] at cut
      obtain ⟨⟨read, p⟩, scanned, ended, ends, joined⟩ := cut
      refine ⟨read, p, ended, scanned, ends, joined, lexis.steady_of_not_sign ends ?_⟩
      intro other member
      have same : other ∈ [token] := joined ▸ List.mem_append_right read member
      rw [List.mem_singleton.mp same]
      exact single.1
    next => cases operand
  next => cases operand

namespace Spells

variable {text : List Char} {spelled first second : List Token}

theorem of_scan (first : List Token)
    (scanned : lexis.scan .between text = (lexis.scan .between rest).map (after first))
    (spells : lexis.Spells rest spelled) : lexis.Spells text (first ++ spelled) := by
  obtain ⟨read, p, ended, restScanned, ends, rfl, steady⟩ := spells
  refine ⟨first ++ read, p, ended, ?_, ends, by simp, steady⟩
  rw [scanned, restScanned]
  rfl

theorem followed {d : Char}
    (spells : lexis.Spells text first) (member : d ∈ delimiters)
    (next : lexis.Spells (d :: rest) second) :
    lexis.Spells (text ++ d :: rest) (first ++ second) := by
  refine of_scan first ?_ next
  obtain ⟨read, p, ended, scanned, ends, rfl, steady⟩ := spells
  rw [scan_append, scanned, bind_some, lexis.scan_of_turn (steady d member) ends,
    map_map]
  congr 1
  funext reached
  exact after_after read ended reached

theorem blank (spells : lexis.Spells rest spelled) : lexis.Spells (' ' :: rest) spelled := by
  refine of_scan [] ?_ spells
  have skips : lexis.start? ' ' = some .between := rfl
  rw [scan_between_cons, skips, bind_some]
  cases lexis.scan .between rest <;> rfl

theorem signed (sign : List Char)
    (reads : lexis.scan .between sign = some ([], .sign sign.reverse)) (member : sign ∈ lexis.signs)
    (noPoint : sign ≠ ['.']) (ends : lexis.opensSign (c :: sign.reverse) = false)
    (next : lexis.Spells (c :: rest) spelled) :
    lexis.Spells (sign ++ c :: rest) (.sign sign :: spelled) := by
  have pending : lexis.pending? (.sign sign.reverse) = some [.sign sign] := by
    simp [pending?, member]
  have turns : lexis.advance (.sign sign.reverse) c = lexis.turn (.sign sign.reverse) c := by
    have differs : sign.reverse ≠ ['.'] := fun same => noPoint (by simpa using same)
    simp [advance, differs, ends]
  refine of_scan [.sign sign] ?_ next
  rw [scan_append, reads, bind_some, lexis.scan_of_turn turns pending, map_map]
  rfl

theorem scan_bracket (bracket : b ∈ brackets) : lexis.scan .between [b] = some ([], .sign [b]) := by
  have opens : lexis.opensSign [b] = true := by
    refine List.any_eq_true.mpr ⟨[b], lexis.bracket_sign b bracket, ?_⟩
    simp
  have noWord : lexis.isWordChar b = false :=
    lexis.delimiter_not_word b (List.mem_append_right _ bracket)
  have others : ∀ b ∈ brackets, b.isWhitespace = false ∧ isQuote b = false ∧ b.isDigit = false :=
    List.all_iff_forall_prop.mp (by decide)
  rw [scan_between_cons]
  simp [start?, others b bracket, noWord, opens, scan]

theorem not_point (bracket : b ∈ brackets) : b ≠ '.' := by
  rintro rfl
  revert bracket
  decide

theorem opened (bracket : b ∈ brackets)
    (nonempty : text ≠ []) (next : lexis.Spells text spelled) :
    lexis.Spells (b :: text) (.sign [b] :: spelled) := by
  cases text with
  | nil => exact (nonempty rfl).elim
  | cons c rest =>
    exact signed [b] (scan_bracket bracket) (lexis.bracket_sign b bracket)
      (by simpa using not_point bracket) (lexis.opensSign_bracket bracket c) next

theorem closing (bracket : b ∈ brackets) : lexis.Spells [b] [.sign [b]] := by
  refine ⟨[], .sign [b], [.sign [b]], scan_bracket bracket, ?_, rfl, ?_⟩
  · simp [pending?, lexis.bracket_sign b bracket]
  · intro d _
    simp [advance, not_point bracket, lexis.opensSign_bracket bracket]

theorem bracketed (spells : lexis.Spells text spelled) :
    lexis.Spells ('(' :: (text ++ [')'])) (.sign ['('] :: (spelled ++ [.sign [')']])) := by
  refine opened (by decide) (by simp) ?_
  exact spells.followed (by decide) (closing (by decide))

theorem subscript {array position : List Char}
    (before : lexis.Spells array first) (within : lexis.Spells position second) :
    lexis.Spells (array ++ '[' :: (position ++ [']']))
      (first ++ .sign ['['] :: (second ++ [.sign [']']])) := by
  refine before.followed (by decide) (opened (by decide) (by simp) ?_)
  exact within.followed (by decide) (closing (by decide))

theorem led {middle right : List Char} {read : List Token}
    (reads : lexis.scan .between (middle ++ [' ']) = some (read, .between))
    (behind : lexis.Spells right second) :
    lexis.Spells (middle ++ ' ' :: right) (read ++ second) := by
  refine of_scan read ?_ behind
  have split : middle ++ ' ' :: right = (middle ++ [' ']) ++ right := by simp
  rw [split, scan_append, reads, bind_some]

theorem spaced {left middle right : List Char} {read : List Token}
    (before : lexis.Spells left first)
    (reads : lexis.scan .between (middle ++ [' ']) = some (read, .between))
    (behind : lexis.Spells right second) :
    lexis.Spells (left ++ ' ' :: (middle ++ ' ' :: right)) (first ++ (read ++ second)) :=
  before.followed (by decide) (led reads behind).blank

end Spells

theorem head?_of_scan_sign {run : List Char} {read : List Token}
    (nonempty : run ≠ []) (noPoint : run ≠ ['.'])
    (scanned : lexis.scan (.sign run) rest = some (read, p)) (ends : lexis.pending? p = some ended) :
    ∃ more, (read ++ ended).head? = some (.sign (run.reverse ++ more)) := by
  induction rest generalizing run read with
  | nil =>
    cases scanned
    simp only [pending?] at ends
    split at ends
    · cases ends
      exact ⟨[], by simp⟩
    · cases ends
  | cons c rest ih =>
    simp only [scan, advance, noPoint, false_and, if_false] at scanned
    split at scanned
    · -- The sign grows.
      simp only [bind_some, map_eq_some_iff] at scanned
      obtain ⟨later, restScanned, same⟩ := scanned
      cases same
      obtain ⟨more, first⟩ := ih (List.cons_ne_nil c run) (by simp [nonempty]) restScanned
      exact ⟨c :: more, by simpa using first⟩
    · -- The sign ends.
      simp only [turn, pending?, Option.bind_eq_some_iff, map_eq_some_iff] at scanned
      obtain ⟨step, ⟨last, closes, next, _, rfl⟩, later, _, same⟩ := scanned
      split at closes
      · cases closes
        cases same
        exact ⟨[], by simp⟩
      · cases closes

/-- An operand begins with no character that would begin a sign. -/
theorem exists_head_of_operand? {text : String} {token : Token} {signs : List Char}
    (cut : lexis.operand? text = some token)
    (start : ∀ c ∈ signs, lexis.start? c = some (.sign [c]) ∧ c ≠ '.') :
    ∃ c rest, text.toList = c :: rest ∧ c ∉ signs := by
  obtain ⟨⟨read, p, ended, scanned, ends, joined, _⟩, noSign, -⟩ := spells_of_operand? cut
  cases whole : text.toList with
  | nil =>
    rw [whole] at scanned
    cases scanned
    cases ends
    cases joined
  | cons c rest =>
    refine ⟨c, rest, rfl, fun isSign => ?_⟩
    obtain ⟨begins, noPoint⟩ := start c isSign
    rw [whole, scan_between_cons, begins, bind_some] at scanned
    obtain ⟨more, first⟩ :=
      head?_of_scan_sign (List.cons_ne_nil c []) (by simpa using noPoint) scanned ends
    rw [joined] at first
    cases first
    cases noSign

end Lexis

end Retarget
