import Mathlib.Data.List.Infix
import Retarget.Proofs.Layout

/-!
# The words of a program text

Which identifiers a program text uses, as a reader of its language finds them: words in comments and
in quoted literals do not count, but words in the fields of a formatted literal do.
-/

namespace Retarget

open Text Degraded

variable {reading : Reading}

/-- The rules by which a text is read. By the bare ones there are only words and numbers. -/
inductive Style where
  | c
  | python
  | bare
  deriving DecidableEq

/-- Where the reading of a text stands. Code may be inside a field of a formatted literal. -/
inductive Reading where
  | code (inside : Bool)
  | word (inside : Bool) (letters : List Char)
  /-- In a number; after the letter of an exponent a sign belongs to it. -/
  | number (inside : Bool) (exponent : Bool)
  | quote (inside : Bool) (mark : Char) (escaped : Bool)
  | literal (escaped : Bool)
  /-- After an opening brace in a formatted literal. -/
  | brace
  | slash
  /-- In a comment that ends with the line; in C a backslash there joins the next line to it. -/
  | remark (escaped : Bool)
  | block (star : Bool)
  deriving DecidableEq

namespace Reading

def start (style : Style) (inside : Bool) (c : Char) : Reading :=
  if isDecimalDigit c then number inside false
  else if isNameChar c then word inside [c]
  else
    match style with
    | .bare => code inside
    | .c =>
      if c = '"' || c = '\'' then quote inside c false
      else if c = '/' then slash
      else code inside
    | .python =>
      if c = '"' || c = '\'' then quote inside c false
      else if c = '#' then remark false
      else if inside && c = '\x7d' then literal false
      else code inside

/-- The reading after a line feed. In C a comment between two marks survives it, and what a backslash
joins. -/
def lineEnd : Style → Reading → Reading
  | .c, block _ => block false
  | .c, remark true => remark false
  | .c, quote inside mark true => quote inside mark false
  | _, _ => code false

def continuesNumber (exponent : Bool) (c : Char) : Bool :=
  isNameChar c || c = '.' || (exponent && (c = '+' || c = '-'))

def exponentMarks : List Char :=
  ['e', 'E', 'p', 'P']

def next (style : Style) (reading : Reading) (c : Char) : Reading :=
  if c = '\n' then lineEnd style reading
  else
    match reading with
    | code inside => start style inside c
    | word inside letters =>
      if isNameChar c then word inside (c :: letters)
      else if style = .python && c = '"' && letters = ['f'] && !inside then literal false
      else start style inside c
    | number inside exponent =>
      if continuesNumber exponent c then number inside (c ∈ exponentMarks)
      else start style inside c
    | quote inside mark true => quote inside mark false
    | quote inside mark false =>
      if c = mark then code inside else quote inside mark (c = '\\')
    | literal true => literal false
    | literal false =>
      if c = '"' then code false else if c = '\x7b' then brace else literal (c = '\\')
    | brace => if c = '\x7b' then literal false else start style true c
    | slash =>
      if c = '/' then remark false else if c = '*' then block false else start style false c
    | remark _ => remark (c = '\\')
    | block star => if star && c = '/' then code false else block (c = '*')

def ended : Reading → Char → List String
  | word _ letters, c => if isNameChar c then [] else [String.ofList letters.reverse]
  | _, _ => []

variable (style : Style)

def emitted : Reading → List Char → List String
  | _, [] => []
  | reading, c :: cs => reading.ended c ++ emitted (reading.next style c) cs

def reach (reading : Reading) (cs : List Char) : Reading :=
  cs.foldl (next style) reading

theorem emitted_append (reading : Reading) (first second : List Char) :
    reading.emitted style (first ++ second) =
      reading.emitted style first ++ (reading.reach style first).emitted style second := by
  induction first generalizing reading with
  | nil => rfl
  | cons c cs ih => simp only [List.cons_append, emitted, ih, List.append_assoc, reach, List.foldl]

theorem reach_append (reading : Reading) (first second : List Char) :
    reading.reach style (first ++ second) = (reading.reach style first).reach style second :=
  List.foldl_append

end Reading

def lineChars (lines : List String) : List Char :=
  lines.flatMap fun line => line.toList ++ ['\n']

def codeWords (style : Style) (lines : List String) : List String :=
  (Reading.code false).emitted style (lineChars lines)

def Covered (table : List (String × Capability)) (caps : Caps) (word : String) : Prop :=
  ∀ entry ∈ table, entry.1 = word → caps.contains entry.2 = true

instance decidableCovered (table : List (String × Capability)) (caps : Caps)
    (word : String) : Decidable (Covered table caps word) :=
  inferInstanceAs (Decidable (∀ entry ∈ table, entry.1 = word → caps.contains entry.2 = true))

theorem Covered.mono {table : List (String × Capability)} {caps later : Caps}
    {word : String} (covered : Covered table caps word) (grown : caps ≤ later) :
    Covered table later word :=
  fun entry member same => grown _ (covered entry member same)

namespace Reading

variable {table : List (String × Capability)} {style : Style} {caps later : Caps}
  {inside : Bool}

/-- The reading is at code, perhaps at the end of a covered word or of a number. -/
def Rests (table : List (String × Capability)) (caps : Caps) (inside : Bool) :
    Reading → Prop
  | code here => here = inside
  | word here letters => here = inside ∧ Covered table caps (String.ofList letters.reverse)
  | number here _ => here = inside
  | _ => False

instance decidableRests (table : List (String × Capability)) (caps : Caps)
    (inside : Bool) : DecidablePred (Rests table caps inside)
  | code here => inferInstanceAs (Decidable (here = inside))
  | word here letters => inferInstanceAs
      (Decidable (here = inside ∧ Covered table caps (String.ofList letters.reverse)))
  | number here _ => inferInstanceAs (Decidable (here = inside))
  | quote .. | literal _ | brace | slash | remark _ | block _ => .isFalse id

theorem Rests.mono (rests : reading.Rests table caps inside) (grown : caps ≤ later) :
    reading.Rests table later inside := by
  cases reading with
  | word here letters => exact ⟨rests.1, rests.2.mono grown⟩
  | _ => exact rests

/-- The readings after which a mark is tried; at the end of a word it is read as at code. -/
def restingPlaces (inside : Bool) : List Reading :=
  [code inside, number inside false, number inside true]

end Reading

section Marks

variable (table : List (String × Capability)) (style : Style) (caps : Caps) (inside : Bool)

open Reading

def Covers (reading : Reading) (text : String) : Prop :=
  ∀ word ∈ reading.emitted style text.toList, Covered table caps word

/-- A text whose words are covered and at whose end the reading rests. -/
def Closed (text : String) : Prop :=
  Covers table style caps (code inside) text ∧
    ((code inside).reach style text.toList).Rests table caps inside

def Leads (mark : String) : Prop :=
  Covers table style caps (code inside) mark ∧ (code inside).reach style mark.toList = code inside

/-- A mark that cannot be read as part of a word or as the quote of a formatted literal. -/
def Apart (mark : String) : Prop :=
  mark.toList.head?.any (fun c => !isNameChar c && (style ≠ .python || c ≠ '"')) = true

/-- A mark that may follow closed texts and after which the reading is at code again. -/
def Joins (mark : String) : Prop :=
  Apart style mark ∧ ∀ reading ∈ restingPlaces inside, Covers table style caps reading mark ∧
    reading.reach style mark.toList = code inside

/-- A mark that may follow closed texts and at whose end the reading rests. -/
def Finishes (mark : String) : Prop :=
  Apart style mark ∧ ∀ reading ∈ restingPlaces inside, Covers table style caps reading mark ∧
    (reading.reach style mark.toList).Rests table caps inside

instance decidableCovers (reading : Reading) (text : String) :
    Decidable (Covers table style caps reading text) :=
  inferInstanceAs (Decidable (∀ word ∈ reading.emitted style text.toList, Covered table caps word))

instance decidableClosed (text : String) : Decidable (Closed table style caps inside text) :=
  inferInstanceAs (Decidable (_ ∧ _))

instance decidableLeads (mark : String) : Decidable (Leads table style caps inside mark) :=
  inferInstanceAs (Decidable (_ ∧ _))

instance decidableApart (mark : String) : Decidable (Apart style mark) :=
  inferInstanceAs (Decidable (_ = true))

instance decidableJoins (mark : String) : Decidable (Joins table style caps inside mark) :=
  inferInstanceAs (Decidable (_ ∧ ∀ reading ∈ restingPlaces inside, _ ∧ _))

instance decidableFinishes (mark : String) : Decidable (Finishes table style caps inside mark) :=
  inferInstanceAs (Decidable (_ ∧ ∀ reading ∈ restingPlaces inside, _ ∧ _))

end Marks

section Closure

variable {table : List (String × Capability)} {style : Style} {caps later : Caps}
  {inside : Bool} {text mark left right : String}

open Reading

theorem covers_append {first second : String} :
    Covers table style caps reading (first ++ second) ↔ Covers table style caps reading first ∧
      Covers table style caps (reading.reach style first.toList) second := by
  rw [Covers, String.toList_append, emitted_append]
  exact List.forall_mem_append

theorem Covers.mono (covers : Covers table style caps reading text) (grown : caps ≤ later) :
    Covers table style later reading text :=
  fun word member => (covers word member).mono grown

theorem Closed.mono (closed : Closed table style caps inside text) (grown : caps ≤ later) :
    Closed table style later inside text :=
  ⟨closed.1.mono grown, closed.2.mono grown⟩

theorem Leads.mono (leads : Leads table style caps inside mark) (grown : caps ≤ later) :
    Leads table style later inside mark :=
  ⟨leads.1.mono grown, leads.2⟩

theorem Joins.mono (joins : Joins table style caps inside mark) (grown : caps ≤ later) :
    Joins table style later inside mark :=
  ⟨joins.1, fun reading member =>
    ⟨(joins.2 reading member).1.mono grown, (joins.2 reading member).2⟩⟩

theorem Finishes.mono (finishes : Finishes table style caps inside mark) (grown : caps ≤ later) :
    Finishes table style later inside mark :=
  ⟨finishes.1, fun reading member =>
    ⟨(finishes.2 reading member).1.mono grown, (finishes.2 reading member).2.mono grown⟩⟩

/-- What is true of a mark after every resting place is true of it wherever the reading rests: a
word ends before it. -/
theorem covers_of_rests (holds : Reading → Prop) (apart : Apart style mark)
    (tried : ∀ reading ∈ restingPlaces inside, Covers table style caps reading mark ∧
      holds (reading.reach style mark.toList))
    (rests : reading.Rests table caps inside) :
    Covers table style caps reading mark ∧ holds (reading.reach style mark.toList) := by
  cases reading with
  | code here =>
    cases rests
    exact tried _ (by simp [restingPlaces])
  | number here exponent =>
    cases rests
    cases exponent <;> exact tried _ (by simp [restingPlaces])
  | word here letters =>
    obtain ⟨rfl, covered⟩ := rests
    obtain ⟨c, head, other⟩ := (Option.any_eq_true _ _).mp apart
    simp only [Bool.and_eq_true, Bool.not_eq_true', Bool.or_eq_true, decide_eq_true_eq] at other
    obtain ⟨cs, whole⟩ := List.head?_eq_some_iff.mp head
    have same : (word here letters).next style c = (code here).next style c := by
      rcases other with ⟨notName, notPython | notQuote⟩
      · simp [next, lineEnd, notName, notPython]
      · simp [next, lineEnd, notName, notQuote]
    obtain ⟨covers, fact⟩ := tried (code here) (by simp [restingPlaces])
    rw [whole] at fact
    constructor
    · intro ended member
      rw [whole, emitted, same] at member
      rcases List.mem_append.mp member with first | later
      · simp only [Reading.ended, other.1, Bool.false_eq_true, if_false,
          List.mem_singleton] at first
        rw [first]
        exact covered
      · apply covers
        rw [whole]
        exact List.mem_append_right _ later
    · rw [whole, reach, List.foldl_cons, same]
      exact fact
  | _ => cases rests

namespace Closed

theorem lead (leads : Leads table style caps inside mark)
    (closed : Closed table style caps inside text) :
    Closed table style caps inside (mark ++ text) := by
  obtain ⟨covers, reached⟩ := leads
  rw [Closed, covers_append, String.toList_append, reach_append, reached]
  exact ⟨⟨covers, closed.1⟩, closed.2⟩

theorem finish (closed : Closed table style caps inside text)
    (finishes : Finishes table style caps inside mark) :
    Closed table style caps inside (text ++ mark) := by
  obtain ⟨covers, rests⟩ :=
    covers_of_rests (Rests table caps inside) finishes.1 finishes.2 closed.2
  rw [Closed, covers_append, String.toList_append, reach_append]
  exact ⟨⟨closed.1, covers⟩, rests⟩

theorem joint (first : Closed table style caps inside left)
    (joins : Joins table style caps inside mark) (second : Closed table style caps inside right) :
    Closed table style caps inside (left ++ mark ++ right) := by
  obtain ⟨covers, reached⟩ := covers_of_rests (· = code inside) joins.1 joins.2 first.2
  have leads : Leads table style caps inside (left ++ mark) := by
    refine ⟨covers_append.mpr ⟨first.1, covers⟩, ?_⟩
    rw [String.toList_append, reach_append]
    exact reached
  exact lead leads second

end Closed

end Closure

end Retarget
