import Mathlib.Data.List.Forall2
import Retarget.Proofs.PythonEvaluation
import Retarget.Render.PythonPrint

/-!
# What Python prints

A reading of calls of `print`. The tokens of a call are cut into its arguments at the commas outside
brackets, and a formatted string into its literal text and the values between braces.
-/

namespace Retarget.Python

open Text
open Option (bind_eq_some_iff bind_some map_eq_some_iff map_some)

variable {c : Char} {escape : Escape} {shown : List String}

/-! ## Arguments -/

def cutArgs (tokens : List Token) : List (List Token) :=
  match _cut : cutAt? separates ⟨0, false⟩ tokens with
  | some (arg, rest) => arg :: cutArgs rest
  | none => [tokens]
termination_by tokens.length
decreasing_by
  have shorter := length_of_cutAt? _cut
  omega

def commaArgs? (tokens : List Token) : Option (List (List Token)) :=
  if [.sign [',']].intercalate (cutArgs tokens) = tokens then some (cutArgs tokens) else none

def printing : List Token := .word "print".toList :: opening

/-- The argument that keeps a call of `print` from ending the line, behind others. -/
def silencing : List Token :=
  [.sign [','], .word "end".toList, .sign ['='], .literal "\"\"".toList]

def printArgs? (text : String) : Option (List (List Token) × Bool) :=
  (lexis.tokens? text).bind fun tokens =>
    match inner? printing (silencing ++ closing) tokens with
    | some inner => (commaArgs? inner).map (·, false)
    | none => ((inner? printing closing tokens).bind commaArgs?).map (·, true)

structure Argument (arg : String) (tokens : List Token) : Prop where
  spells : lexis.Spells arg.toList tokens
  shows : ∃ shown, Shows tokens shown

section Arguments

variable {first : List Token} {args : List String} {others pieces : List (List Token)}

theorem cutArgs_intercalate (each : ∀ tokens ∈ first :: others, ∃ shown, Shows tokens shown) :
    cutArgs ([.sign [',']].intercalate (first :: others)) = first :: others := by
  induction others generalizing first with
  | nil =>
    obtain ⟨shown, shows⟩ := each first List.mem_cons_self
    rw [List.intercalate_singleton, cutArgs]
    split
    next found => cases (shows.unparted 0).symm.trans found
    next => rfl
  | cons next others ih =>
    obtain ⟨⟨shown, shows⟩, later⟩ := List.forall_mem_cons.mp each
    have cut : cutAt? separates ⟨0, false⟩ ([.sign [',']].intercalate (first :: next :: others)) =
        some (first, [.sign [',']].intercalate (next :: others)) := by
      rw [List.intercalate_cons_cons, List.append_assoc,
        cutAt?_behind (shows.unparted 0) (shows.surveyed 0)]
      simp [cutAt?, separates]
    rw [cutArgs]
    split
    next found =>
      cases cut.symm.trans found
      rw [ih later]
    next missed => cases cut.symm.trans missed

theorem commaArgs?_intercalate (filled : args ≠ []) (each : List.Forall₂ Argument args pieces) :
    commaArgs? ([.sign [',']].intercalate pieces) = some pieces := by
  have shows : ∀ tokens ∈ pieces, ∃ shown, Shows tokens shown := by
    intro tokens member
    obtain ⟨n, bound, rfl⟩ := List.getElem_of_mem member
    exact (each.get (each.length_eq ▸ bound) bound).shows
  cases each with
  | nil => exact (filled rfl).elim
  | cons =>
    rw [commaArgs?, cutArgs_intercalate shows]
    simp

theorem spells_join (filled : args ≠ []) (each : List.Forall₂ Argument args pieces) :
    lexis.Spells (join ", " args).toList ([.sign [',']].intercalate pieces) ∧
      Fills ([.sign [',']].intercalate pieces) := by
  induction each with
  | nil => exact (filled rfl).elim
  | @cons arg tokens args pieces argument later ih =>
    obtain ⟨shown, shows⟩ := argument.shows
    cases later with
    | nil =>
      rw [List.intercalate_singleton, Text.join, String.intercalate_singleton]
      exact ⟨argument.spells, shows.fills⟩
    | @cons next nextTokens args pieces _ _ =>
      obtain ⟨spells, fills⟩ := ih (List.cons_ne_nil _ _)
      have joined : (join ", " (arg :: next :: args)).toList =
          arg.toList ++ ',' :: ' ' :: (join ", " (next :: args)).toList := by
        simp [Text.join, String.intercalate_cons_cons]
      rw [joined, List.intercalate_cons_cons, List.append_assoc]
      refine ⟨argument.spells.followed (by decide) ?_, .separated (by decide) shows fills⟩
      exact spells.blank.signed [','] (by decide) (by decide) (by decide) (by decide)

theorem survey_of_refused {token : Token} {tokens : List Token}
    (refused : ∀ nesting, tokenStep nesting token = none) (member : token ∈ tokens)
    (nesting : Nesting) : survey nesting tokens = none := by
  induction tokens generalizing nesting with
  | nil => cases member
  | cons next rest ih =>
    obtain _ | ⟨_, member⟩ := member
    · rw [survey, refused]
      rfl
    · rw [survey]
      cases tokenStep nesting next with
      | none => rfl
      | some step => rw [bind_some, ih member, Option.map_none]

theorem tokenStep_refused {sign : Char} (refused : sign ∈ ['=', '\x7b', '\x7d'])
    (nesting : Nesting) : tokenStep nesting (.sign [sign]) = none := by
  obtain ⟨depth, ended⟩ := nesting
  simp only [List.mem_cons, List.not_mem_nil, or_false] at refused
  obtain rfl | rfl | rfl := refused <;> cases ended <;> rfl

def printTail (newline : Bool) : List Token :=
  (if newline then [] else silencing) ++ closing

theorem tokens?_print (filled : args ≠ []) (each : List.Forall₂ Argument args pieces)
    (newline : Bool) : lexis.tokens? (applied "print" (join ", " args ++ printEnd newline)) =
      some (printing ++ [.sign [',']].intercalate pieces ++ printTail newline) := by
  obtain ⟨spells, -⟩ := spells_join filled each
  obtain ⟨d, rest, member, begins, tailSpells⟩ : ∃ d rest, d ∈ delimiters ∧
      (printEnd newline ++ ")").toList = d :: rest ∧
      lexis.Spells (d :: rest) (printTail newline) := by
    cases newline with
    | true => exact ⟨')', [], by decide, by decide, .closing (by decide)⟩
    | false =>
      refine ⟨',', " end=\"\")".toList, by decide, by decide, silencing, .sign [')'], closing,
        by decide, by decide, rfl, ?_⟩
      exact List.all_iff_forall_prop.mp (by decide)
  have cut : lexis.operand? "print" = some (.word "print".toList) := by decide
  have opened : (applied "print" (join ", " args ++ printEnd newline)).toList =
      "print".toList ++ '(' :: ((join ", " args).toList ++ d :: rest) := by
    rw [← begins]
    simp [applied, Text.bracketed]
  refine Lexis.tokens?_of_spells ?_
  rw [opened]
  exact (Lexis.spells_of_operand? cut).1.followed (by decide)
    (.opened (by decide) (by simp) (spells.followed member tailSpells))

theorem printArgs?_join (filled : args ≠ []) (each : List.Forall₂ Argument args pieces)
    (newline : Bool) : printArgs? (applied "print" (join ", " args ++ printEnd newline)) =
      some (pieces, newline) := by
  have cut := commaArgs?_intercalate filled each
  have tokens := tokens?_print filled each newline
  obtain ⟨-, fills⟩ := spells_join filled each
  generalize [.sign [',']].intercalate pieces = inner at cut tokens fills
  rw [printArgs?, tokens, bind_some]
  cases newline with
  | false =>
    have found : inner? printing (silencing ++ closing) (printing ++ inner ++ printTail false) =
        some inner :=
      inner?_append printing (silencing ++ closing) inner
    rw [found]
    dsimp only
    rw [cut, map_some]
  | true =>
    -- The sign of the last argument would be among the others.
    have missed : inner? printing (silencing ++ closing) (printing ++ inner ++ printTail true) =
        none := by
      refine Option.eq_none_iff_forall_ne_some.mpr fun front found => ?_
      have whole := eq_of_inner? found
      rw [← List.append_assoc, List.append_assoc printing] at whole
      have same : front ++ silencing = inner :=
        List.append_cancel_left (List.append_cancel_right whole)
      have member : .sign ['='] ∈ inner :=
        same ▸ List.mem_append_right front (by decide)
      obtain ⟨ended, surveyed⟩ := fills.surveyed 0
      cases surveyed.symm.trans (survey_of_refused (tokenStep_refused (by decide)) member _)
    have found : inner? printing closing (printing ++ inner ++ printTail true) = some inner :=
      inner?_append printing closing inner
    rw [missed]
    rw [found, bind_some, cut, map_some]

end Arguments

/-! ## Calls of `print` -/

/-- Where the reader of a formatted string stands: in its literal text, behind a brace that opens,
behind one that closes, or in the text of a value. -/
inductive FormatMode where
  | literal (escape : Escape)
  | opened
  | closed
  | field (run : List Char)

/-- A character of a value in a formatted string, which ends at the first brace that an expression
stands before. -/
def fieldStep? (meaning : List Token → Value) (run : List Char) (c : Char) :
    Option (List Nat × FormatMode) :=
  if c ∈ ['"', '\\', '\n'] then none
  else match (read? meaning (String.ofList run.reverse)).filter fun _ => c = '\x7d' with
    | some value => some (value.form, .literal .clear)
    | none => some ([], .field (c :: run))

def formatStep? (meaning : List Token → Value) : FormatMode → Char → Option (List Nat × FormatMode)
  | .literal escape, c =>
    if c = '\x7b' then escape.pending?.map fun points => (points, .opened)
    else if c = '\x7d' then escape.pending?.map fun points => (points, .closed)
    else (escape.step? '"' c).map fun step => (step.1, .literal step.2)
  | .opened, c =>
    if c = '\x7b' then some ([c.toNat], .literal .clear) else fieldStep? meaning [] c
  | .closed, c => if c = '\x7d' then some ([c.toNat], .literal .clear) else none
  | .field run, c => fieldStep? meaning run c

/-- The code points that the body of a formatted string stands for. -/
def formatted? (meaning : List Token → Value) : FormatMode → List Char → Option (List Nat)
  | .literal escape, [] => escape.pending?
  | _, [] => none
  | mode, c :: cs =>
    (formatStep? meaning mode c).bind fun step => (formatted? meaning step.2 cs).map (step.1 ++ ·)

def output? (meaning : List Token → Value) (tokens : List Token) : Option (List Nat) :=
  match formattedBody? tokens with
  | some body => formatted? meaning (.literal .clear) body
  | none => if isExpression tokens then some (evaluate meaning tokens).form else none

def lineEnd (newline : Bool) : List Nat :=
  if newline then [10] else []

/-- What a call of `print` writes: its arguments with blanks between them, and a line end unless an
argument keeps it out. -/
def printed? (meaning : List Token → Value) (text : String) : Option (List Nat) :=
  (printArgs? text).bind fun call =>
    (call.1.mapM (output? meaning)).map fun outs => [32].intercalate outs ++ lineEnd call.2

section Printing

variable {meaning : List Token → Value} {text arg : String} {value : Value} {out : List Nat}

/-- An argument for which `print` writes these code points. -/
def Outputs (meaning : List Token → Value) (arg : String) (out : List Nat) : Prop :=
  ∃ tokens, Argument arg tokens ∧ output? meaning tokens = some out

theorem Reads.outputs (reads : Reads meaning text value shown) :
    Outputs meaning text value.form := by
  obtain ⟨tokens, spells, shows, unformatted, rfl⟩ := reads
  refine ⟨tokens, ⟨spells, shown, shows⟩, ?_⟩
  rw [output?, unformatted]
  rw [if_pos (shows.isExpression unformatted)]

theorem exists_related {α β : Type} {rel : α → β → Prop} {xs : List α} {ys : List β}
    (related : List.Forall₂ rel xs ys) {x : α} (member : x ∈ xs) : ∃ y, rel x y := by
  obtain ⟨n, bound, rfl⟩ := List.getElem_of_mem member
  exact ⟨_, related.get bound (related.length_eq ▸ bound)⟩

theorem printed?_of_outputs {args : List String} {outs : List (List Nat)} (filled : args ≠ [])
    (outputs : List.Forall₂ (Outputs meaning) args outs) (newline : Bool) :
    printed? meaning (applied "print" (join ", " args ++ printEnd newline)) =
      some ([32].intercalate outs ++ lineEnd newline) := by
  obtain ⟨pieces, each, written⟩ : ∃ pieces, List.Forall₂ Argument args pieces ∧
      pieces.mapM (output? meaning) = some outs := by
    clear filled
    induction outputs with
    | nil => exact ⟨[], .nil, rfl⟩
    | cons first _ ih =>
      obtain ⟨tokens, argument, output⟩ := first
      obtain ⟨pieces, each, written⟩ := ih
      exact ⟨tokens :: pieces, .cons argument each, by simp [List.mapM_cons, output, written]⟩
  rw [printed?, printArgs?_join filled each, bind_some, written, map_some]

/-! ## Formatted strings -/

/-- The literal text of a formatted string, with each brace twice. -/
def doubled (body : List Char) : List Char :=
  body.flatMap fun c => if c ∈ ['\x7b', '\x7d'] then [c, c] else [c]

theorem doubled_of_brace (brace : c ∈ ['\x7b', '\x7d']) (body : List Char) :
    doubled (c :: body) = c :: c :: doubled body := by
  rw [doubled, List.flatMap_cons, if_pos brace]
  rfl

theorem doubled_of_plain (plain : c ∉ ['\x7b', '\x7d']) (body : List Char) :
    doubled (c :: body) = c :: doubled body := by
  rw [doubled, List.flatMap_cons, if_neg plain]
  rfl

theorem toList_formattedLiteral (body : String) :
    (formattedLiteral body).toList = doubled body.toList := by
  have twice (c : Char) :
      (if c = '\x7b' then "\x7b\x7b".toList else [c]).flatMap
          (fun c => if c = '\x7d' then "\x7d\x7d".toList else [c]) =
        if c ∈ ['\x7b', '\x7d'] then [c, c] else [c] := by
    by_cases opens : c = '\x7b'
    · subst opens
      decide
    · by_cases closes : c = '\x7d'
      · subst closes
        decide
      · simp [opens, closes]
  simp only [formattedLiteral, respell, String.toList_ofList, doubled, List.flatMap_assoc, twice]

theorem Escape.step?_brace {next : Escape} (brace : c ∈ ['\x7b', '\x7d'])
    (steps : escape.step? '"' c = some (out, next)) :
    ∃ points, escape.pending? = some points ∧ out = points ++ [c.toNat] ∧ next = .clear := by
  have unknown : ∀ c ∈ ['\x7b', '\x7d'], digit? 8 c = none ∧ digit? 16 c = none ∧
      letter? c = none ∧ c ≠ 'u' ∧ c ≠ '"' ∧ c ≠ '\n' ∧ c ≠ '\\' :=
    List.all_iff_forall_prop.mp (by decide)
  obtain ⟨noOctal, noHex, noLetter, noCode, noQuote, noEnd, noSlash⟩ := unknown c brace
  have closes {points : List Nat} (ends : escape.pending? = some points) :
      escape.step? '"' c = some (points ++ [c.toNat], clear) := by
    rw [step?_of_not_absorbs ends (absorbs_of_no_digit escape noOctal []), begin?,
      if_neg (not_or.mpr ⟨noQuote, noEnd⟩), if_neg noSlash]
  cases escape with
  | clear | octal =>
    cases (closes rfl).symm.trans steps
    exact ⟨_, rfl, rfl, rfl⟩
  | slash => simp [step?, noCode, noOctal, noLetter] at steps
  | code => simp [step?, noHex] at steps

theorem formatted?_cons (meaning : List Token → Value) (mode : FormatMode) (c : Char)
    (cs : List Char) : formatted? meaning mode (c :: cs) =
      (formatStep? meaning mode c).bind fun step =>
        (formatted? meaning step.2 cs).map (step.1 ++ ·) := by
  cases mode <;> rfl

theorem formatted?_doubled {points : List Nat} (brace : c ∈ ['\x7b', '\x7d'])
    (ends : escape.pending? = some points) (rest : List Char) :
    formatted? meaning (.literal escape) (c :: c :: rest) =
      (formatted? meaning (.literal .clear) rest).map ((points ++ [c.toNat]) ++ ·) := by
  have steps : ∃ mode, formatStep? meaning (.literal escape) c = some (points, mode) ∧
      formatStep? meaning mode c = some ([c.toNat], .literal .clear) := by
    simp only [List.mem_cons, List.not_mem_nil, or_false] at brace
    obtain rfl | rfl := brace
    · exact ⟨.opened, by simp [formatStep?, ends], rfl⟩
    · exact ⟨.closed, by simp [formatStep?, ends], rfl⟩
  obtain ⟨mode, first, second⟩ := steps
  rw [formatted?_cons, first, Option.bind_some, formatted?_cons, second, Option.bind_some,
    Option.map_map]
  congr 1
  funext later
  simp

theorem formatted?_literal {next : Escape} {body : List Char}
    (decoded : escape.decode '"' body = some (out, next)) (rest : List Char) :
    formatted? meaning (.literal escape) (doubled body ++ rest) =
      (formatted? meaning (.literal next) rest).map (out ++ ·) := by
  induction body generalizing escape out with
  | nil =>
    cases decoded
    change formatted? meaning (.literal next) rest =
      (formatted? meaning (.literal next) rest).map ([] ++ ·)
    cases formatted? meaning (.literal next) rest <;> rfl
  | cons c body ih =>
    obtain ⟨⟨first, between⟩, steps, decoded⟩ := bind_eq_some_iff.mp decoded
    obtain ⟨⟨later, last⟩, decodedRest, same⟩ := map_eq_some_iff.mp decoded
    cases same
    have joined : (formatted? meaning (.literal between) (doubled body ++ rest)).map (first ++ ·) =
        (formatted? meaning (.literal last) rest).map ((first ++ later) ++ ·) := by
      rw [ih decodedRest, Option.map_map]
      congr 1
      funext further
      simp
    by_cases brace : c ∈ ['\x7b', '\x7d']
    · obtain ⟨points, ends, rfl, rfl⟩ := Escape.step?_brace brace steps
      rw [← joined, doubled_of_brace brace]
      exact formatted?_doubled brace ends _
    · have apart : c ≠ '\x7b' ∧ c ≠ '\x7d' := by simpa using brace
      have plain : formatStep? meaning (.literal escape) c = some (first, .literal between) := by
        simp [formatStep?, apart, steps]
      rw [doubled_of_plain brace, List.cons_append, formatted?_cons, plain, bind_some]
      exact joined

theorem tokens?_of_brace {tokens : List Token} (spells : lexis.Spells text.toList tokens)
    (shows : Shows tokens shown) (brace : c ∈ ['\x7b', '\x7d']) (front rest : List Char)
    (split : text.toList = front ++ c :: rest) : lexis.tokens? (String.ofList front) = none := by
  have facts : ∀ c ∈ ['\x7b', '\x7d'], (lexis.start? c = some (.sign [c]) ∧
      lexis.pending? (.sign [c]) = some [.sign [c]] ∧ c ∈ ['=', '\x7b', '\x7d']) ∧
      (isWordChar c = false ∧ Lexis.isQuote c = false ∧ c.isDigit = false ∧ c ≠ '.' ∧ c ≠ '+' ∧
        c ≠ '-') ∧ ∀ sign ∈ lexis.signs, sign ≠ [] ∧ (c ∈ sign → sign = [c]) :=
    List.all_iff_forall_prop.mp (by decide)
  obtain ⟨⟨starts, alone, refused⟩, plain, signs⟩ := facts c brace
  have longer {run : List Char} (member : c ∈ run) (long : 1 < run.length) :
      lexis.opensSign run = false := by
    refine List.any_eq_false.mpr fun sign known opens => ?_
    have begins := List.isPrefixOf_iff_prefix.mp opens
    have same := (signs sign known).2 (begins.subset (List.mem_reverse.mpr member))
    have lengths := begins.length_le
    rw [same, List.length_reverse, List.length_singleton] at lengths
    omega
  have emitted {rest : List Char} {more ended : List Token} {last : Progress}
      (scanned : lexis.scan (.sign [c]) rest = some (more, last))
      (ends : lexis.pending? last = some ended) : .sign [c] ∈ more ++ ended := by
    cases rest with
    | nil =>
      cases scanned
      cases alone.symm.trans ends
      simp
    | cons d rest =>
      have turns : lexis.advance (.sign [c]) d = lexis.turn (.sign [c]) d := by
        have stops : lexis.opensSign [d, c] = false := longer (by simp) (by simp)
        simp [Lexis.advance, stops, plain]
      rw [lexis.scan_of_turn turns alone] at scanned
      obtain ⟨_, _, same⟩ := map_eq_some_iff.mp scanned
      cases same
      simp
  obtain ⟨read, p, ended, scanned, ends, joined, -⟩ := spells
  rw [split, Lexis.scan_append] at scanned
  obtain ⟨⟨before, q⟩, scannedFront, scanned⟩ := bind_eq_some_iff.mp scanned
  obtain ⟨⟨later, last⟩, scannedRest, same⟩ := map_eq_some_iff.mp scanned
  cases same
  cases closes : lexis.pending? q with
  | none => simp [Lexis.tokens?, scannedFront, closes]
  | some stopped =>
    -- Outside literals the brace is a token of its own.
    have turns : lexis.advance q c = lexis.turn q c := by
      have noWord : lexis.isWordChar c = false := plain.1
      cases q with
      | between => rfl
      | word run => simp [Lexis.advance, noWord, plain]
      | number run =>
        have ends : lexis.continuesNumber run c = false := by
          change continuesNumber run c = false
          simp [continuesNumber, plain]
        simp [Lexis.advance, ends, plain]
      | literal => cases closes
      | closed run => simp [Lexis.advance, plain]
      | sign run =>
        have filled : run ≠ [] := by
          rintro rfl
          cases closes
        have stops : lexis.opensSign (c :: run) = false :=
          longer List.mem_cons_self (by simpa using List.length_pos_iff.mpr filled)
        simp [Lexis.advance, stops, plain]
    rw [lexis.scan_of_turn turns closes, Lexis.scan_between_cons, starts,
      bind_some] at scannedRest
    obtain ⟨⟨more, _⟩, scannedMore, same⟩ := map_eq_some_iff.mp scannedRest
    cases same
    have member := emitted scannedMore ends
    have inTokens : .sign [c] ∈ tokens := by
      rw [← joined]
      simp only [List.append_assoc]
      exact List.mem_append_right _ (List.mem_append_right _ member)
    cases (shows.surveyed 0).symm.trans
      (survey_of_refused (tokenStep_refused refused) inTokens _)

theorem formatted?_run {cs run : List Char} (split : run.reverse ++ cs = text.toList)
    (plain : text.toList.all (fun c => c ∉ ['"', '\\', '\n']) = true)
    (braces : ∀ front rest, text.toList = front ++ '\x7d' :: rest →
      lexis.tokens? (String.ofList front) = none) (rest : List Char) :
    formatted? meaning (.field run) (cs ++ rest) =
      formatted? meaning (.field text.toList.reverse) rest := by
  induction cs generalizing run with
  | nil =>
    rw [← split]
    simp
  | cons c cs ih =>
    have unquoted : c ∉ ['"', '\\', '\n'] := by
      have member : c ∈ text.toList := split ▸ List.mem_append_right _ List.mem_cons_self
      exact of_decide_eq_true (List.all_eq_true.mp plain c member)
    have inside : (read? meaning (String.ofList run.reverse)).filter (fun _ => c = '\x7d') =
        none := by
      by_cases closes : c = '\x7d'
      · subst closes
        rw [read?, braces _ _ split.symm]
        rfl
      · simp [closes]
    have steps : formatStep? meaning (.field run) c = some ([], .field (c :: run)) := by
      rw [formatStep?, fieldStep?, if_neg unquoted, inside]
    have later : (c :: run).reverse ++ cs = text.toList := by
      rw [← split]
      simp
    rw [List.cons_append, formatted?_cons, steps, bind_some, ih later]
    simp

theorem formatted?_field {points : List Nat} (ends : escape.pending? = some points)
    (reads : Reads meaning text value shown)
    (plain : text.toList.all (fun c => c ∉ ['"', '\\', '\n']) = true) (rest : List Char) :
    formatted? meaning (.literal escape) ('\x7b' :: (text.toList ++ '\x7d' :: rest)) =
      (formatted? meaning (.literal .clear) rest).map ((points ++ value.form) ++ ·) := by
  have read := reads.read?
  obtain ⟨tokens, spells, shows, -, -⟩ := reads
  have opens : formatStep? meaning (.literal escape) '\x7b' = some (points, .opened) := by
    simp [formatStep?, ends]
  -- A value does not begin with a brace, so the one before it is not doubled.
  have begins : formatted? meaning .opened (text.toList ++ '\x7d' :: rest) =
      formatted? meaning (.field []) (text.toList ++ '\x7d' :: rest) := by
    cases begun : text.toList with
    | nil =>
      rw [String.toList_eq_nil_iff.mp begun] at read
      cases read
    | cons c cs =>
      have single : c ≠ '\x7b' := by
        rintro rfl
        cases tokens?_of_brace spells shows (by decide) [] cs begun
      rw [List.cons_append, formatted?_cons, formatted?_cons, formatStep?, if_neg single]
      rfl
  have closes : formatStep? meaning (.field text.toList.reverse) '\x7d' =
      some (value.form, .literal .clear) := by
    rw [formatStep?, fieldStep?, if_neg (by decide), List.reverse_reverse, String.ofList_toList, read]
    rfl
  rw [formatted?_cons, opens, Option.bind_some, begins,
    formatted?_run rfl plain (tokens?_of_brace spells shows (by decide)),
    formatted?_cons, closes, Option.bind_some, Option.map_map]
  congr 1
  funext later
  simp

def FormatMode.isEscaping : FormatMode → Bool
  | .literal .slash => true
  | _ => false

theorem fieldStep?_cases {run : List Char} {next : FormatMode}
    (steps : fieldStep? meaning run c = some (out, next)) :
    c ∉ ['"', '\\', '\n'] ∧ next.isEscaping = false := by
  unfold fieldStep? at steps
  split at steps
  · cases steps
  next plain =>
    refine ⟨plain, ?_⟩
    split at steps <;> cases steps <;> rfl

theorem formatStep?_cases {mode next : FormatMode}
    (steps : formatStep? meaning mode c = some (out, next)) :
    c ≠ '\n' ∧ (mode.isEscaping = true ∨ c ≠ '"') ∧
      next.isEscaping = (!mode.isEscaping && c = '\\') := by
  have flag (escape : Escape) : (FormatMode.literal escape).isEscaping = decide (escape = .slash) := by
    cases escape <;> rfl
  have within {run : List Char} (calm : mode.isEscaping = false)
      (reads : fieldStep? meaning run c = some (out, next)) :
      c ≠ '\n' ∧ (mode.isEscaping = true ∨ c ≠ '"') ∧
        next.isEscaping = (!mode.isEscaping && c = '\\') := by
    obtain ⟨plain, ended⟩ := fieldStep?_cases reads
    simp only [List.mem_cons, List.not_mem_nil, or_false, not_or] at plain
    simp [plain, ended]
  cases mode with
  | literal escape =>
    rw [formatStep?] at steps
    split at steps
    next opens =>
      obtain ⟨points, -, same⟩ := map_eq_some_iff.mp steps
      cases same
      simp [opens, FormatMode.isEscaping]
    next =>
      split at steps
      next closes =>
        obtain ⟨points, -, same⟩ := map_eq_some_iff.mp steps
        cases same
        simp [closes, FormatMode.isEscaping]
      next =>
        obtain ⟨step, reads, same⟩ := map_eq_some_iff.mp steps
        cases same
        obtain ⟨noEnd, inside, escapes⟩ := Escape.step?_cases reads
        rw [flag, flag, decide_eq_decide.mpr escapes, Bool.decide_and, decide_not]
        exact ⟨noEnd, inside.imp_left decide_eq_true, rfl⟩
  | opened =>
    rw [formatStep?] at steps
    split at steps
    next opens =>
      cases steps
      simp [opens, FormatMode.isEscaping]
    next => exact within rfl steps
  | closed =>
    rw [formatStep?] at steps
    split at steps
    next closes =>
      cases steps
      simp [closes, FormatMode.isEscaping]
    next => cases steps
  | field run => exact within rfl steps

theorem scan_of_formatted? {mode : FormatMode} {cs : List Char}
    (formatted : formatted? meaning mode cs = some out) (run : List Char) :
    lexis.scan (.literal '"' mode.isEscaping run) cs =
      some ([], .literal '"' false (cs.reverse ++ run)) := by
  induction cs generalizing mode out run with
  | nil =>
    have ended : mode.isEscaping = false := by
      cases mode with
      | literal escape =>
        cases escape with
        | slash => cases formatted
        | clear | octal | code => rfl
      | opened | closed | field => rfl
    rw [ended]
    rfl
  | cons c cs ih =>
    rw [formatted?_cons] at formatted
    obtain ⟨⟨first, next⟩, steps, formatted⟩ := bind_eq_some_iff.mp formatted
    obtain ⟨later, formattedRest, -⟩ := map_eq_some_iff.mp formatted
    obtain ⟨noEnd, inside, escapes⟩ := formatStep?_cases steps
    have advances := Escape.advance_literal noEnd inside run
    rw [← escapes] at advances
    simp [Lexis.scan, advances, ih formattedRest (c :: run)]

theorem outputs_of_formatted? {pieces : String}
    (formatted : formatted? meaning (.literal .clear) pieces.toList = some out) :
    Outputs meaning ("f" ++ quoted pieces) out := by
  have opened : ("f" ++ quoted pieces).toList = ['f', '"'] ++ pieces.toList ++ ['"'] := by
    simp [quoted]
  refine ⟨[.literal (['f', '"'] ++ pieces.toList ++ ['"'])], ⟨?_, [], .operand rfl⟩, ?_⟩
  · rw [opened]
    exact spells_literal (by decide) (scan_of_formatted? formatted ['"', 'f'])
  · have body : formattedBody? [.literal (['f', '"'] ++ pieces.toList ++ ['"'])] =
        some pieces.toList := by simp [formattedBody?]
    rw [output?, body]
    exact formatted

end Printing

end Retarget.Python
