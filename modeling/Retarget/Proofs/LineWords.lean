import Retarget.Proofs.PythonStmtWriting
import Retarget.Proofs.SpelledWords

/-!
# The words of lines

Every line that a renderer writes from leaves without words of the library names only what is in
use, and after it the reading is at code again.
-/

namespace Retarget

open Text Degraded Reading

def Target.style : Target → Style
  | c => .c
  | python => .python

def Crosses (target : Target) (caps : Caps) (first last : Reading) (cs : List Char) : Prop :=
  (∀ word ∈ first.emitted target.style cs, Covered (libraryWords target) caps word) ∧
    first.reach target.style cs = last

instance decidableCrosses (target : Target) (caps : Caps) (first last : Reading)
    (cs : List Char) : Decidable (Crosses target caps first last cs) :=
  inferInstanceAs (Decidable (_ ∧ _))

section Crossing

variable {target : Target} {caps later : Caps} {first middle last : Reading}
  {cs ds : List Char} {text : String}

theorem Crosses.mono (crosses : Crosses target caps first last cs) (grown : caps ≤ later) :
    Crosses target later first last cs :=
  ⟨fun word member => (crosses.1 word member).mono grown, crosses.2⟩

theorem Crosses.append (begins : Crosses target caps first middle cs)
    (ends : Crosses target caps middle last ds) : Crosses target caps first last (cs ++ ds) := by
  obtain ⟨covered, rfl⟩ := begins
  constructor
  · rw [emitted_append]
    exact List.forall_mem_append.mpr ⟨covered, ends.1⟩
  · rw [reach_append]
    exact ends.2

theorem Crosses.silent (nothing : first.emitted target.style cs = [])
    (reached : first.reach target.style cs = last) : Crosses target caps first last cs := by
  refine ⟨?_, reached⟩
  rw [nothing]
  simp

theorem Closed.crosses (closed : Closed (libraryWords target) target.style caps false text) :
    Crosses target caps (code false) (code false) (text.toList ++ ['\n']) := by
  have tried : ∀ target ∈ [Target.c, Target.python], Apart target.style "\n" ∧
      ∀ reading ∈ restingPlaces false, Covers (libraryWords target) target.style {} reading "\n" ∧
        reading.reach target.style "\n".toList = code false := by decide +kernel
  obtain ⟨apart, tried⟩ := tried target (by cases target <;> decide)
  obtain ⟨covers, reached⟩ := covers_of_rests (· = code false) apart
    (fun reading known => ⟨(tried reading known).1.mono (Caps.empty_le caps),
      (tried reading known).2⟩) closed.2
  exact .append ⟨closed.1, rfl⟩ ⟨covers, reached⟩

/-- A margin changes nothing at code or inside a comment. -/
theorem Crosses.row (still : first.next target.style ' ' = first) (idle : first.ended ' ' = [])
    (crosses : Crosses target caps first last (text.toList ++ ['\n'])) (layout : Layout)
    (row : Row) (written : row.text = text) :
    Crosses target caps first last ((row.line layout).toList ++ ['\n']) := by
  have blanks (n : Nat) : Crosses target caps first first (List.replicate n ' ') := by
    induction n with
    | zero => exact .silent rfl rfl
    | succ n ih =>
      have one : Crosses target caps first first [' '] :=
        .silent (by simp [emitted, idle]) still
      exact one.append ih
  rw [Row.line, String.toList_append, written, Layout.margin, String.toList_ofList,
    List.append_assoc]
  exact (blanks _).append crosses

theorem Crosses.codeRow (crosses : Crosses target caps (code false) last (text.toList ++ ['\n']))
    (layout : Layout) (row : Row) (written : row.text = text) :
    Crosses target caps (code false) last ((row.line layout).toList ++ ['\n']) :=
  .row (by cases target <;> decide) rfl crosses layout row written

end Crossing

section Remarks

variable {caps : Caps}

theorem reach_remark (style : Style) (escaped : Bool) {cs : List Char} (unbroken : '\n' ∉ cs) :
    (remark escaped).emitted style cs = [] ∧
      (remark escaped).reach style cs = remark (cs.getLast?.elim escaped (· = '\\')) := by
  induction cs generalizing escaped with
  | nil => exact ⟨rfl, rfl⟩
  | cons c cs ih =>
    obtain ⟨notFeed, unbroken⟩ := not_or.mp (List.mem_cons.not.mp unbroken)
    have step : (remark escaped).next style c = remark (c = '\\') := by simp [next, Ne.symm notFeed]
    obtain ⟨nothing, reached⟩ := ih (c = '\\') unbroken
    constructor
    · rw [emitted, step, nothing]
      rfl
    · rw [reach, List.foldl_cons, step, ← reach, reached, List.getLast?_cons]
      cases cs.getLast? <;> rfl

theorem crosses_remark (target : Target) {rest : String} (unbroken : '\n' ∉ rest.toList)
    (unjoined : target = .c → rest.toList.getLast? ≠ some '\\') :
    Crosses target caps (code false) (code false)
      ((target.commentMark ++ rest).toList ++ ['\n']) := by
  have opening : Crosses target caps (code false) (remark false) target.commentMark.toList := by
    cases target with
    | c => exact .silent (by decide) (by decide)
    | python => exact .silent (by decide) (by decide)
  obtain ⟨nothing, reached⟩ := reach_remark target.style false unbroken
  have closing : Crosses target caps (remark (rest.toList.getLast?.elim false (· = '\\')))
      (code false) ['\n'] := by
    refine .silent rfl ?_
    cases target with
    | python => rfl
    | c =>
      cases ending : rest.toList.getLast? with
      | none => rfl
      | some c =>
        have other : c ≠ '\\' := by
          rintro rfl
          exact unjoined rfl ending
        simp [reach, next, lineEnd, other, Target.style]
  rw [String.toList_append, List.append_assoc]
  exact opening.append (.append (.silent nothing reached) closing)

theorem getLast?_ne_of_endsIn {text : String} (unjoined : endsIn "\\" text = false) :
    text.toList.getLast? ≠ some '\\' := by
  intro last
  obtain ⟨front, whole⟩ := List.getLast?_eq_some_iff.mp last
  exact Bool.eq_false_iff.mp unjoined (List.isSuffixOf_iff_suffix.mpr ⟨front, whole.symm⟩)

theorem crosses_commentText (target : Target) {text : String} (unbroken : '\n' ∉ text.toList)
    (unjoined : target = .c → endsIn "\\" text = false) :
    Crosses target caps (code false) (code false)
      ((Render.commentText target.commentMark text).toList ++ ['\n']) := by
  unfold Render.commentText
  split
  · have whole : target.commentMark ++ "" = target.commentMark := String.append_empty
    rw [← whole]
    exact crosses_remark target (by decide) fun _ => by decide
  next nonempty =>
    rw [String.append_assoc]
    apply crosses_remark target
    · simp [unbroken]
    · intro isC
      have ending := getLast?_ne_of_endsIn (unjoined isC)
      rw [String.toList_append, List.getLast?_append]
      cases last : text.toList.getLast? with
      | none => decide
      | some c =>
        rw [last] at ending
        exact ending

theorem crosses_placeholder (target : Target) {stmt : Stmt}
    (clean : stmt.Over (Leaf.Lexical target caps)) {later : Caps} :
    Crosses target later (code false) (code false)
      ((target.placeholder stmt.construct).toList ++ ['\n']) := by
  have plain : '\n' ∉ (" unsupported: " ++ stmt.construct).toList ∧
      (" unsupported: " ++ stmt.construct).toList.getLast? ≠ some '\\' := by
    cases stmt with
    | unsupported kind text => exact (clean (.source kind text) List.mem_cons_self).elim
    | _ =>
      rw [Stmt.construct]
      decide
  rw [Target.placeholder, String.append_assoc]
  exact crosses_remark target plain.1 fun _ => plain.2

end Remarks

section Blocks

variable {caps : Caps}

/-- A comment between two marks goes on as long as the second mark does not stand in it. -/
theorem reach_block {star : Bool} {cs : List Char}
    (stays : ¬['*', '/'] <:+: (if star then '*' :: cs else cs)) :
    (block star).emitted .c cs = [] ∧ ∃ last, (block star).reach .c cs = block last := by
  induction cs generalizing star with
  | nil => exact ⟨rfl, star, rfl⟩
  | cons c cs ih =>
    have within : c :: cs <:+: if star then '*' :: c :: cs else c :: cs := by
      cases star with
      | true => exact (List.suffix_cons _ _).isInfix
      | false => exact List.infix_refl _
    have unclosed : ¬(star = true ∧ c = '/') := by
      rintro ⟨rfl, rfl⟩
      exact stays (List.prefix_append ['*', '/'] cs).isInfix
    obtain ⟨reached, step, later⟩ : ∃ reached, (block star).next .c c = block reached ∧
        (if reached then '*' :: cs else cs) <:+: c :: cs := by
      by_cases feed : c = '\n'
      · exact ⟨false, by simp [next, lineEnd, feed], (List.suffix_cons _ _).isInfix⟩
      · refine ⟨c = '*', by simpa [next, feed] using unclosed, ?_⟩
        by_cases isStar : c = '*'
        · simp [isStar]
        · simpa [isStar] using (List.suffix_cons _ _).isInfix
    obtain ⟨nothing, last, ends⟩ := ih fun closed => stays (closed.trans (later.trans within))
    refine ⟨?_, last, ?_⟩
    · rw [emitted, step, nothing]
      rfl
    · rw [reach, List.foldl_cons, step]
      exact ends

theorem reach_block_line {text part : String} (free : Text.contains "*/" text = false)
    (member : part ∈ lines text) : (block false).emitted .c part.toList = [] ∧
      ∃ last, (block false).reach .c part.toList = block last := by
  apply reach_block
  intro closed
  obtain ⟨before, rest, whole⟩ := closed.trans (infix_of_mem_lines member)
  rw [Text.contains, ← whole, List.append_assoc] at free
  have found : occurs "*/".toList (before ++ (['*', '/'] ++ rest)) = true :=
    occurs_append before ['*', '/'] rest
  rw [found] at free
  cases free

end Blocks

namespace C

variable {caps later : Caps}

theorem Line.crosses {text : String} (line : Line (Leaf.Lexical .c caps) later text)
    (grown : caps ≤ later) :
    Crosses .c later (code false) (code false) (text.toList ++ ['\n']) := by
  cases line with
  | spelled spelled => exact (spelled.closed grown).crosses
  | blankRemark => exact .silent (by decide) (by decide)
  | @remark comment text fine isLine part =>
    have unjoined := fine rfl
    rw [isLine] at unjoined
    exact crosses_commentText .c (not_mem_of_mem_lines part) fun _ => unjoined text part
  | @shortRemark comment text fine isBlock single =>
    have free := fine rfl
    rw [isBlock] at free
    have member : text ∈ lines comment.text := by simp [single]
    obtain ⟨nothing, last, reached⟩ := reach_block_line free member
    have opening : Crosses .c later (code false) (block false) "/* ".toList :=
      .silent (by decide) (by decide)
    have closing : Crosses .c later (block last) (code false) (" */".toList ++ ['\n']) := by
      cases last <;> exact .silent (by decide) (by decide)
    rw [String.toList_append, String.toList_append, List.append_assoc, List.append_assoc]
    exact opening.append (.append (.silent nothing reached) closing)
  | placeholder clean => exact crosses_placeholder .c clean
  | bare fine => exact fine.elim

theorem crosses_blockText {text part : String} (free : Text.contains "*/" text = false)
    (member : part ∈ lines text) : Crosses .c later (block false) (block false)
      ((Render.commentText " *" part).toList ++ ['\n']) := by
  unfold Render.commentText
  split
  · exact .silent (by decide) (by decide)
  · obtain ⟨nothing, last, reached⟩ := reach_block_line free member
    have opening : Crosses .c later (block false) (block false) (" *" ++ " ").toList :=
      .silent (by decide) (by decide)
    rw [String.toList_append, List.append_assoc]
    exact opening.append (.append (.silent nothing reached) (.silent rfl rfl))

theorem Listing.crosses {rows : List Row} (listing : Listing (Leaf.Lexical .c caps) later rows)
    (grown : caps ≤ later) (layout : Layout) :
    Crosses .c later (code false) (code false) (lineChars (Row.lines rows layout)) := by
  induction listing with
  | nil => exact .silent rfl rfl
  | line line _ ih =>
    exact ((line.crosses grown).codeRow layout _ rfl).append ih
  | @remark comment depth rest fine isBlock _ ih =>
    have free := fine rfl
    rw [isBlock] at free
    have opening : Crosses .c later (code false) (block false) ("/*".toList ++ ['\n']) :=
      .silent (by decide) (by decide)
    have closing : Crosses .c later (block false) (code false) (" */".toList ++ ['\n']) :=
      .silent (by decide) (by decide)
    have parts (texts : List String) (inside : ∀ part ∈ texts, part ∈ lines comment.text) :
        Crosses .c later (block false) (block false) (lineChars (Row.lines
          (texts.map fun part => { depth, text := Render.commentText " *" part }) layout)) := by
      induction texts with
      | nil => exact .silent rfl rfl
      | cons part others ih =>
        rw [List.map_cons, Row.lines_cons]
        apply Crosses.append
        · exact .row rfl rfl (crosses_blockText free (inside part List.mem_cons_self)) layout _
            rfl
        · exact ih fun other member => inside other (List.mem_cons_of_mem part member)
    rw [List.cons_append, Row.lines_cons, Row.lines_append, Row.lines_cons]
    have whole := (opening.codeRow layout { depth, text := "/*" } rfl).append
      ((parts _ fun _ member => member).append
        ((Crosses.row rfl rfl closing layout { depth, text := " */" } rfl).append ih))
    simpa [lineChars] using whole

end C

section Following

def turns : List Char :=
  ['"', '\'', '\x7b']

/-- A reading by the rules of Python keeps up with one by the bare rules, or finds no words. -/
inductive Reading.Follows : Reading → Reading → Prop where
  | code (inside : Bool) : Follows (code inside) (code false)
  | word (inside : Bool) (letters : List Char) : Follows (word inside letters) (word false letters)
  | number (inside exponent : Bool) : Follows (number inside exponent) (number false exponent)
  | brace : Follows brace (code false)
  | quote (inside : Bool) {mark : Char} (escaped : Bool) {bare : Reading}
      (known : mark ∈ turns) (rests : bare.Rests [] {} false) :
      Follows (quote inside mark escaped) bare
  | literal (escaped : Bool) {bare : Reading} (rests : bare.Rests [] {} false) :
      Follows (literal escaped) bare
  | remark (escaped : Bool) {bare : Reading} (rests : bare.Rests [] {} false) :
      Follows (remark escaped) bare

variable {reading bare : Reading} {c : Char}

theorem follows_start (inside : Bool) (c : Char) :
    (start .python inside c).Follows (start .bare false c) := by
  unfold start
  split
  · exact .number inside false
  · split
    · exact .word inside [c]
    · dsimp only
      split
      next isMark =>
        have known : c ∈ turns := by
          rcases Bool.or_eq_true_iff.mp isMark with isMark | isMark <;>
            simp [turns, of_decide_eq_true isMark]
        exact .quote inside false known rfl
      next =>
        split
        · exact .remark false rfl
        · split
          · exact .literal false rfl
          · exact .code inside

theorem next_turn (known : c ∈ turns) (rests : bare.Rests [] {} false) :
    bare.next .bare c = code false := by
  have all : ∀ c ∈ turns, isDecimalDigit c = false ∧ isNameChar c = false ∧ c ≠ '\n' ∧
      c ≠ '.' ∧ c ≠ '+' ∧ c ≠ '-' := List.all_iff_forall_prop.mp (by decide)
  have plain := all c known
  cases bare with
  | code inside =>
    cases rests
    simp [next, start, plain]
  | word inside letters =>
    obtain ⟨rfl, -⟩ := rests
    simp [next, start, plain]
  | number inside exponent =>
    cases rests
    simp [next, start, continuesNumber, plain]
  | _ => cases rests

theorem Reading.Follows.next (follows : reading.Follows bare) (c : Char) :
    (reading.next .python c).Follows (bare.next .bare c) ∧
      ∀ word ∈ reading.ended c, word ∈ bare.ended c := by
  have ended : ∀ word ∈ reading.ended c, word ∈ bare.ended c := by
    cases follows with
    | word => exact fun _ member => member
    | _ => exact fun _ member => by cases member
  refine ⟨?_, ended⟩
  by_cases feed : c = '\n'
  · subst feed
    exact .code false
  have home : (Reading.code false).Rests [] {} false := rfl
  cases follows with
  | code inside => simpa [Reading.next, feed] using follows_start inside c
  | word inside letters =>
    by_cases nameChar : isNameChar c = true
    · simpa [Reading.next, feed, nameChar] using Follows.word inside (c :: letters)
    have step : (Reading.word inside letters).next .python c =
        if c = '"' && letters = ['f'] && !inside then .literal false
        else start .python inside c := by simp [Reading.next, feed, nameChar]
    have bareStep : (Reading.word false letters).next .bare c =
        (Reading.code false).next .bare c := by simp [Reading.next, feed, nameChar]
    rw [step, bareStep]
    split
    · exact .literal false (rests_next feed home)
    · simpa [Reading.next, feed] using follows_start inside c
  | number inside exponent =>
    simp only [Reading.next, feed, if_false]
    split
    · exact .number inside _
    · exact follows_start inside c
  | brace =>
    have step : Reading.brace.next .python c =
        if c = '\x7b' then .literal false else start .python true c := by simp [Reading.next, feed]
    rw [step]
    split
    · exact .literal false (rests_next feed home)
    · simpa [Reading.next, feed] using follows_start true c
  | @quote inside mark escaped bare known rests =>
    have kept := rests_next feed rests
    cases escaped with
    | true =>
      have step : (Reading.quote inside mark true).next .python c = .quote inside mark false := by
        simp [Reading.next, feed]
      rw [step]
      exact .quote inside false known kept
    | false =>
      have step : (Reading.quote inside mark false).next .python c =
          if c = mark then .code inside else .quote inside mark (c = '\\') := by
        simp [Reading.next, feed]
      rw [step]
      split
      next isMark =>
        rw [isMark, next_turn known rests]
        exact .code inside
      next => exact .quote inside _ known kept
  | @literal escaped bare rests =>
    have kept := rests_next feed rests
    cases escaped with
    | true =>
      have step : (Reading.literal true).next .python c = .literal false := by
        simp [Reading.next, feed]
      rw [step]
      exact .literal false kept
    | false =>
      have step : (Reading.literal false).next .python c =
          if c = '"' then .code false else if c = '\x7b' then .brace
            else .literal (c = '\\') := by simp [Reading.next, feed]
      rw [step]
      split
      next closes =>
        rw [closes, next_turn (by decide) rests]
        exact .code false
      next =>
        split
        next opens =>
          rw [opens, next_turn (by decide) rests]
          exact .brace
        next => exact .literal _ kept
  | @remark escaped bare rests =>
    have step : (Reading.remark escaped).next .python c = .remark (c = '\\') := by
      simp [Reading.next, feed]
    rw [step]
    exact .remark _ (rests_next feed rests)

theorem Reading.Follows.reach (follows : reading.Follows bare) (cs : List Char) :
    (reading.reach .python cs).Follows (bare.reach .bare cs) ∧
      ∀ word ∈ reading.emitted .python cs, word ∈ bare.emitted .bare cs := by
  induction cs generalizing reading bare with
  | nil => exact ⟨follows, by simp [emitted]⟩
  | cons c cs ih =>
    obtain ⟨later, ended⟩ := follows.next c
    obtain ⟨reached, words⟩ := ih later
    refine ⟨reached, fun word member => ?_⟩
    rcases List.mem_append.mp member with here | behind
    · exact List.mem_append_left _ (ended word here)
    · exact List.mem_append_right _ (words word behind)

/-- Read out of step, a line names only what is in use if it does so by the bare rules. -/
theorem Reading.Follows.crosses {caps : Caps} {text : String}
    (follows : reading.Follows (.code false))
    (closed : Closed (libraryWords .python) .bare caps false text) :
    Crosses .python caps reading (.code false) (text.toList ++ ['\n']) := by
  obtain ⟨reached, words⟩ := follows.reach text.toList
  refine .append ⟨fun word member => closed.1 word (words word member), rfl⟩ ⟨?_, rfl⟩
  intro word member
  have last : word ∈ (reading.reach .python text.toList).ended '\n' ++ [] := member
  rw [List.append_nil] at last
  have ended := (reached.next '\n').2 word last
  have rests := closed.2
  revert ended rests
  cases (Reading.code false).reach .bare text.toList with
  | word inside letters =>
    intro ended rests
    cases List.mem_singleton.mp ended
    exact rests.2
  | _ => exact fun ended => by cases ended

end Following

namespace Python

variable {caps later : Caps} {text : String}

section Formats

def convertOne (hasArgs : Bool) (_ : Unit) (spec : List Char) (c : Char) : List Char × Unit :=
  (convertSpec hasArgs spec c, ())

theorem convertFrom_eq (hasArgs : Bool) (spec : Option (List Char)) (cs : List Char) :
    convertFrom hasArgs spec cs = convertWith (convertOne hasArgs) spec () cs := by
  induction cs generalizing spec with
  | nil => cases spec <;> rfl
  | cons c cs ih => cases spec <;> simp only [convertFrom, convertWith, convertOne, ih]

theorem convertOne_keepsQuote (hasArgs : Bool) : KeepsQuote (convertOne hasArgs) := by
  intro state spec c escaped ends flags
  have lengthened (next : Char) (inert : areInert [next] = true) :
      quoteFrom '"' false (spec ++ [next]) = some false := by
    rw [quoteFrom_append, flags]
    exact quoteFrom_of_areInert inert
  have kept : areInert [c] = true := by
    rcases Bool.or_eq_true_iff.mp ends with letter | percent
    · exact areInert_of_isAlpha letter
    · rw [decide_eq_true_eq.mp percent]
      decide
  unfold convertOne convertSpec
  split
  · rfl
  · cases hasArgs <;> rfl
  case h_3 | h_4 | h_5 => exact lengthened _ (by decide)
  · exact lengthened _ kept

/-- A format string keeps its quote, except that it may be left escaped: the line feed at its end is
dropped with the backslash before it. -/
theorem quoteFrom_closedFormat {hasArgs : Bool} {body format lineEnd : String}
    (fine : isBody '"' false body.toList = true)
    (closed : closedFormat (convertFormat hasArgs body) = (format, lineEnd)) :
    (∃ last, quoteFrom '"' false format.toList = some last) ∧
      (lineEnd = "" ∨ lineEnd = ", end=\"\"") := by
  have kept : quoteFrom '"' false (convertFormat hasArgs body).toList = some false := by
    rw [convertFormat, String.toList_ofList, convertFrom_eq]
    exact (quoteFrom_convertWith (convertOne_keepsQuote hasArgs) () false fine).1
  unfold closedFormat at closed
  split at closed
  next stripped found =>
    cases closed
    refine ⟨?_, .inl rfl⟩
    rw [← append_of_beforeEnd? found, String.toList_append, quoteFrom_append] at kept
    obtain ⟨last, reached, -⟩ := Option.bind_eq_some_iff.mp kept
    exact ⟨last, reached⟩
  next =>
    cases closed
    exact ⟨⟨false, kept⟩, .inr (by decide)⟩

theorem closed_formatArgs {args : List String}
    (spelled : ∀ arg ∈ args, Spelled (Leaf.Lexical .python caps) later arg) :
    Closed (libraryWords .python) .bare later false ("\"" ++ formatArgs args) := by
  have least : ({} : Caps) ≤ later := Caps.empty_le later
  have quote : Closed (libraryWords .python) .bare later false "\"" :=
    (by decide : Closed (libraryWords .python) .bare {} false "\"").mono least
  have percent : Joins (libraryWords .python) .bare later false " % " :=
    (tables.joint .bare (by decide) false " % " (by decide)).mono least
  have joined {text : String} (spelled : Spelled (Leaf.Lexical .python caps) later text) :
      Closed (libraryWords .python) .bare later false ("\"" ++ (" % " ++ text)) := by
    exact quote.joint percent (spelled.closed (by decide))
  unfold formatArgs
  split
  · exact quote
  next single => exact joined (spelled single List.mem_cons_self)
  next filled _ =>
    cases args with
    | nil => exact absurd rfl filled
    | cons arg rest => exact joined (.bracketed (.join (by decide) spelled))

end Formats

section Fields

def Begins (text : String) : Prop :=
  text.toList.head?.any (· ≠ '\x7b') = true

instance decidableBegins (text : String) : Decidable (Begins text) :=
  inferInstanceAs (Decidable (_ = true))

theorem Begins.append {left : String} (begins : Begins left) (right : String) :
    Begins (left ++ right) := by
  obtain ⟨c, head, other⟩ := (Option.any_eq_true _ _).mp begins
  rw [Begins, String.toList_append, List.head?_append, head]
  exact other

theorem begins_of_isNumeral (numeral : isNumeral text.toList = true) : Begins text := by
  unfold Begins
  cases whole : text.toList with
  | nil =>
    rw [whole] at numeral
    cases numeral
  | cons c cs =>
    have other : c ≠ '\x7b' := by
      rintro rfl
      rw [whole] at numeral
      cases numeral
    simpa using other

theorem begins_of_isIdentifier (identifier : IsIdentifier text) : Begins text := by
  obtain ⟨begins, nameChars⟩ := identifier
  obtain ⟨c, head, -⟩ := (Option.any_eq_true _ _).mp begins
  have other : c ≠ '\x7b' := by
    rintro rfl
    exact absurd (nameChars _ (List.mem_of_head? head)) (by decide)
  rw [Begins, head]
  simpa using other

theorem Spelled.begins (spelled : Spelled (Leaf.Lexical .python caps) later text) :
    Begins text := by
  have owns : ∀ text ∈ ownTexts, Begins text := by decide
  have leading : ∀ mark ∈ leads, Begins mark := by decide
  have library : ∀ entry ∈ libraryTexts, Begins entry.1 := by decide
  induction spelled with
  | own known => exact owns _ known
  | name fine => exact begins_of_isIdentifier fine.1
  | integer fine => exact begins_of_isNumeral (isNumeral_integerText fine)
  | decimal fine => exact begins_of_isNumeral (isNumeral_decimalText fine)
  | number n =>
    cases n with
    | ofNat n => exact begins_of_isNumeral (isNumeral_toString n)
    | negSucc n => exact .append (by decide : Begins "-") (toString (n + 1))
  | letter => exact .append (.append (by decide) _) _
  | text => exact .append (.append (by decide) _) _
  | label => exact .append (.append (by decide) _) _
  | lead known => exact (leading _ known).append _
  | joint _ _ _ first => exact (first.append _).append _
  | tail _ _ ih => exact ih.append _
  | slice _ _ _ first => exact ((((first.append _).append _).append _).append _).append _
  | libraryText known => exact library _ known
  | libraryLead => exact .append (.append (.append (by decide) _) _) _
  | bareValue fine => exact fine.elim
  | bareText fine => exact fine.elim

theorem crosses_formattedLiteral {body : String} (fine : isBody '"' false body.toList = true) :
    Crosses .python caps (literal false) (literal false) (formattedLiteral body).toList := by
  have doubled (cs : List Char) : ∀ escaped, isBody '"' escaped cs = true →
      Crosses .python caps (literal escaped) (literal false)
        ((cs.flatMap fun c => if c = '\x7b' then "\x7b\x7b".toList else [c]).flatMap
          fun c => if c = '\x7d' then "\x7d\x7d".toList else [c]) := by
    induction cs with
    | nil =>
      intro escaped body
      cases escaped with
      | true => cases body
      | false => exact .silent rfl rfl
    | cons c cs ih =>
      intro escaped body
      obtain ⟨rest, read, known⟩ := isBody_cons body
      have unescaped (brace : c ∉ escapes) : escaped = false := by
        cases escaped with
        | true => exact absurd (known rfl) brace
        | false => rfl
      rw [List.flatMap_cons, List.flatMap_append]
      apply Crosses.append _ (ih _ rest)
      by_cases opens : c = '\x7b'
      · subst opens
        cases unescaped (by decide)
        exact .silent (by decide) (by decide)
      by_cases closes : c = '\x7d'
      · subst closes
        cases unescaped (by decide)
        exact .silent (by decide) (by decide)
      have plain : ¬(c = '\n' || (!escaped && c = '"')) = true := by
        intro ends
        rw [quoteFrom, if_pos ends] at read
        cases read
      simp only [Bool.or_eq_true, Bool.and_eq_true, Bool.not_eq_true', decide_eq_true_eq,
        not_or, not_and] at plain
      have one : Crosses .python caps (literal escaped) (literal (!escaped && c = '\\')) [c] := by
        refine .silent rfl ?_
        cases escaped with
        | true => simp [reach, next, plain.1]
        | false => simp [reach, next, plain.1, plain.2 rfl, opens]
      simpa [opens, closes] using one
  have whole := doubled body.toList false fine
  simpa [formattedLiteral, respell] using whole

theorem crosses_field (spelled : Spelled (Leaf.Lexical .python caps) later text) :
    Crosses .python later (literal false) (literal false) ("\x7b" ++ text ++ "\x7d").toList := by
  have opening : Crosses .python later (literal false) brace "\x7b".toList :=
    .silent (by decide) (by decide)
  have closed : Closed (libraryWords .python) .python later true text :=
    spelled.closed (by decide)
  have value : Crosses .python later brace ((code true).reach .python text.toList) text.toList := by
    obtain ⟨c, head, other⟩ := (Option.any_eq_true _ _).mp spelled.begins
    obtain ⟨cs, whole⟩ := List.head?_eq_some_iff.mp head
    have step : brace.next .python c = (code true).next .python c := by
      simp only [decide_eq_true_eq] at other
      simp [next, Reading.lineEnd, other]
    have same : brace.emitted .python text.toList = (code true).emitted .python text.toList ∧
        brace.reach .python text.toList = (code true).reach .python text.toList := by
      rw [whole, emitted, reach, reach, List.foldl_cons, List.foldl_cons, step]
      exact ⟨rfl, rfl⟩
    refine ⟨?_, same.2⟩
    intro word member
    apply closed.1 word
    rw [← same.1]
    exact member
  have tried : Apart .python "\x7d" ∧ ∀ reading ∈ restingPlaces true,
      Covers (libraryWords .python) .python {} reading "\x7d" ∧
        reading.reach .python "\x7d".toList = literal false := by decide +kernel
  obtain ⟨covers, reached⟩ := covers_of_rests (· = literal false) tried.1
    (fun reading known => ⟨(tried.2 reading known).1.mono (Caps.empty_le later),
      (tried.2 reading known).2⟩) closed.2
  rw [String.toList_append, String.toList_append, List.append_assoc]
  exact opening.append (value.append ⟨covers, reached⟩)

theorem Formatted.crosses (formatted : Formatted (Leaf.Lexical .python caps) later text) :
    Crosses .python later (.literal false) (.literal false) text.toList := by
  induction formatted with
  | nil => exact .silent rfl rfl
  | literal fine _ ih =>
    rw [String.toList_append]
    exact (crosses_formattedLiteral fine.1).append ih
  | value spelled _ _ ih =>
    rw [String.toList_append]
    exact (crosses_field spelled).append ih

end Fields

section Lines

theorem Line.crosses (line : Line (Leaf.Lexical .python caps) later text) :
    Crosses .python later (code false) (code false) (text.toList ++ ['\n']) := by
  have least : ({} : Caps) ≤ later := Caps.empty_le later
  cases line with
  | spelled spelled =>
    have closed : Closed (libraryWords .python) .python later false text :=
      spelled.closed (by decide)
    exact closed.crosses
  | remark unbroken => exact crosses_commentText .python unbroken fun isC => by cases isC
  | placeholder clean => exact crosses_placeholder .python clean
  | @formatted text formatted newline =>
    have opening : Crosses .python later (code false) (literal false) "print(f\"".toList :=
      (by decide +kernel : Crosses .python {} (code false) (literal false)
        "print(f\"".toList).mono least
    have closing : Crosses .python later (literal false) (code false)
        (("\"" ++ printEnd newline ++ ")").toList ++ ['\n']) := by
      have all : ∀ newline, Crosses .python {} (literal false) (code false)
          (("\"" ++ printEnd newline ++ ")").toList ++ ['\n']) := by decide +kernel
      exact (all newline).mono least
    have whole : applied "print" ("f" ++ quoted text ++ printEnd newline) =
        "print(f\"" ++ text ++ ("\"" ++ printEnd newline ++ ")") := by
      have front : "print(f\"" = "print" ++ "(" ++ "f" ++ "\"" := by decide
      simp only [applied, Text.bracketed, quoted, front, String.append_assoc]
    rw [whole, String.toList_append, String.toList_append, List.append_assoc, List.append_assoc]
    exact opening.append (formatted.crosses.append closing)
  | @format body format lineEnd args fine closed spelled =>
    obtain ⟨⟨last, kept⟩, ending⟩ := quoteFrom_closedFormat fine.1 closed
    have opening : Crosses .python later (code false) (quote false '"' false) "print(\"".toList :=
      (by decide +kernel : Crosses .python {} (code false) (quote false '"' false)
        "print(\"".toList).mono least
    obtain ⟨nothing, reached⟩ := reach_quote .python false kept
    have finishes {mark : String} (known : mark ∈ tails) :
        Finishes (libraryWords .python) .bare later false mark :=
      (tables.tail .bare (by decide) false mark known).mono least
    have arguments : Closed (libraryWords .python) .bare later false
        ("\"" ++ formatArgs args ++ lineEnd) := by
      rcases ending with rfl | rfl
      · rw [String.append_empty]
        exact closed_formatArgs spelled
      · exact (closed_formatArgs spelled).finish (finishes (by decide))
    have rest : Closed (libraryWords .python) .bare later false
        ("\"" ++ formatArgs args ++ lineEnd ++ ")") :=
      arguments.finish (finishes (by decide))
    have follows : (quote false '"' last).Follows (code false) := .quote false last (by decide) rfl
    have whole : applied "print" (quoted format ++ formatArgs args ++ lineEnd) =
        "print(\"" ++ format ++ ("\"" ++ formatArgs args ++ lineEnd ++ ")") := by
      have front : "print(\"" = "print" ++ "(" ++ "\"" := by decide
      simp only [applied, Text.bracketed, quoted, front, String.append_assoc]
    rw [whole, String.toList_append, String.toList_append, List.append_assoc, List.append_assoc]
    exact opening.append (.append (.silent nothing reached) (follows.crosses rest))

theorem Header.crosses {keyword : Keyword}
    (header : Header (Leaf.Lexical .python caps) later keyword text) :
    Crosses .python later (code false) (code false) (text.toList ++ ['\n']) := by
  have least : ({} : Caps) ≤ later := Caps.empty_le later
  have colon : Finishes (libraryWords .python) .python later false ":" :=
    (by decide : Finishes (libraryWords .python) .python {} false ":").mono least
  have openings : ∀ keyword ∈ [Keyword.if, .elif, .else, .for, .while],
      Closed (libraryWords .python) .python {} false keyword.opening ∧
        (keyword ≠ .else → Leads (libraryWords .python) .python {} false keyword.opening) := by
    decide +kernel
  obtain ⟨closes, leads⟩ := openings keyword (by cases keyword <;> decide)
  have closed : Closed (libraryWords .python) .python later false text := by
    cases header with
    | bare => exact (closes.mono least).finish colon
    | test tested spelled =>
      exact ((spelled.closed (by decide)).lead ((leads tested).mono least)).finish colon
  exact closed.crosses

theorem crosses_rows {rows : List Row}
    (written : ∀ row ∈ rows, Written (Leaf.Lexical .python caps) later row) (layout : Layout) :
    Crosses .python later (code false) (code false) (lineChars (Row.lines rows layout)) := by
  induction rows with
  | nil => exact .silent rfl rfl
  | cons row rest ih =>
    obtain ⟨first, others⟩ := List.forall_mem_cons.mp written
    apply Crosses.append _ (ih others)
    cases first with
    | line line => exact line.crosses.codeRow layout _ rfl
    | header header => exact header.crosses.codeRow layout _ rfl

end Lines

end Python

end Retarget
