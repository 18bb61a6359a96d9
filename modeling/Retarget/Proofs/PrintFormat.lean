import Retarget.Proofs.CStmtOrderly

/-!
# Formats that fit their arguments

A print is written as a format string with a list of arguments. Read as `printf` reads it, the
format has one conversion for each piece that is no string literal, and prints the literals between
the values.
-/

namespace Retarget.C

open Text

/-- What `printf` finds in a format string: a character that is printed as it stands, or a
conversion, which prints the next argument. -/
inductive FormatPiece where
  | plain (c : Char)
  | conversion (spelling : List Char)
  deriving DecidableEq

def lengthModifiers : List Char := ['h', 'l', 'j', 'z', 't', 'L']

def conversionEnds : List Char :=
  ['d', 'i', 'o', 'u', 'x', 'X', 'f', 'F', 'e', 'E', 'g', 'G', 'a', 'A', 'c', 's', 'p', 'n']

/-- The pieces of a format string, if it is one that has nothing but length modifiers between a
percent sign and its letter. A conversion that has been begun is held in reverse. Two percent signs
in a row are one that is printed. -/
def piecesFrom : Option (List Char) → List Char → Option (List FormatPiece)
  | none, [] => some []
  | some _, [] => none
  | none, c :: cs =>
    if c = '%' then piecesFrom (some ['%']) cs else (piecesFrom none cs).map (.plain c :: ·)
  | some begun, c :: cs =>
    if c = '%' && begun = ['%'] then (piecesFrom none cs).map (.plain '%' :: ·)
    else if c ∈ lengthModifiers then piecesFrom (some (c :: begun)) cs
    else if c ∈ conversionEnds then
      (piecesFrom none cs).map (.conversion (c :: begun).reverse :: ·)
    else none

def pieces? (format : String) : Option (List FormatPiece) :=
  piecesFrom none format.toList

def FormatPiece.conversion? : FormatPiece → Option String
  | plain _ => none
  | conversion spelling => some (String.ofList spelling)

/-- What is printed if each conversion gives way to the next value. There have to be as many values
as conversions. -/
def printed : List FormatPiece → List (List Char) → Option (List Char)
  | [], [] => some []
  | .plain c :: rest, values => (printed rest values).map (c :: ·)
  | .conversion _ :: rest, value :: values => (printed rest values).map (value ++ ·)
  | _, _ => none

def isValue (part : Expr) : Bool :=
  part.stringBody?.isNone

def interleaved : List Expr → List (List Char) → List Char
  | [], _ => []
  | part :: rest, values =>
    part.stringBody?.elim (values.headD [] ++ interleaved rest values.tail) fun body =>
      body.toList ++ interleaved rest values

/-- Text that is read as these pieces, whatever comes behind it. -/
def Scans (text : List Char) (pieces : List FormatPiece) : Prop :=
  ∀ rest, piecesFrom none (text ++ rest) = (piecesFrom none rest).map (pieces ++ ·)

namespace Scans

variable {text others : List Char} {pieces further : List FormatPiece}

theorem nil : Scans [] [] := by
  intro rest
  simp

theorem append (first : Scans text pieces) (second : Scans others further) :
    Scans (text ++ others) (pieces ++ further) := by
  intro rest
  rw [List.append_assoc, first, second, Option.map_map]
  congr 1
  funext behind
  exact (List.append_assoc ..).symm

theorem pieces?_eq {format : String} (scans : Scans format.toList pieces) :
    pieces? format = some pieces := by
  have alone := scans []
  rw [List.append_nil] at alone
  rw [pieces?, alone]
  exact congrArg some (List.append_nil pieces)

theorem plain {c : Char} (noPercent : c ≠ '%') : Scans [c] [.plain c] := by
  intro rest
  rw [List.singleton_append, piecesFrom, if_neg noPercent]
  rfl

theorem percent : Scans ['%', '%'] [.plain '%'] :=
  fun _ => rfl

/-- A literal with its percent signs written twice is read as its characters. -/
theorem literal (body : String) :
    Scans (respell '%' "%%" body).toList (body.toList.map .plain) := by
  rw [respell, String.toList_ofList]
  induction body.toList with
  | nil => exact nil
  | cons c cs ih =>
    rw [List.flatMap_cons, List.map_cons]
    by_cases sign : c = '%'
    · rw [if_pos sign, sign]
      exact percent.append ih
    · rw [if_neg sign]
      exact (plain sign).append ih

theorem specifier (type : ValueType) :
    Scans (formatSpecifier type).toList [.conversion (formatSpecifier type).toList] := by
  intro rest
  cases type <;> rfl

end Scans

theorem printed_plain (body : List Char) (pieces : List FormatPiece) (values : List (List Char)) :
    printed (body.map .plain ++ pieces) values = (printed pieces values).map (body ++ ·) := by
  induction body with
  | nil => simp
  | cons c cs ih =>
    rw [List.map_cons, List.cons_append, printed, ih, Option.map_map]
    rfl

theorem formatValue_eq_ok {part : Expr} {format : Format} {cx after : Context}
    (written : (formatValue part).run.run cx = .ok (.ok format, after)) :
    ∃ arg final, (expr part).run.run cx = .ok (.ok arg, final) ∧
      format = ⟨formatSpecifier (cx.symbols.typeOf part), [arg]⟩ := by
  obtain ⟨_, _, read, written⟩ := Trial.bind_eq_ok.mp written
  cases read
  obtain ⟨arg, final, rendered, written⟩ := Trial.bind_eq_ok.mp written
  refine ⟨arg, final, rendered, ?_⟩
  split at written <;> cases written <;> rfl

structure Fits (table : SymbolTable) (parts : List Expr) (format : Format)
    (pieces : List FormatPiece) : Prop where
  scans : Scans format.text.toList pieces
  conversions : pieces.filterMap FormatPiece.conversion? =
    (parts.filter isValue).map fun part => formatSpecifier (table.typeOf part)
  args : List.Forall₂ (fun part arg => ∀ cx, cx.symbols = table → ∃ final,
    (expr part).run.run cx = .ok (.ok arg, final)) (parts.filter isValue) format.args
  printed : ∀ values, values.length = format.args.length →
    printed pieces values = some (interleaved parts values)

namespace Fits

variable {table : SymbolTable} {parts : List Expr} {format : Format} {pieces : List FormatPiece}
  {part : Expr}

theorem nil (table : SymbolTable) : Fits table [] ⟨"", []⟩ [] where
  scans := .nil
  conversions := rfl
  args := .nil
  printed values none := by
    rw [List.length_eq_zero_iff.mp none]
    rfl

theorem literal {body : String} (isLiteral : part.stringBody? = some body)
    (fits : Fits table parts format pieces) :
    Fits table (part :: parts) ⟨respell '%' "%%" body ++ format.text, format.args⟩
      (body.toList.map .plain ++ pieces) := by
  have noValue : isValue part = false := by rw [isValue, isLiteral]; rfl
  have noConversion :
      (body.toList.map .plain).filterMap FormatPiece.conversion? = [] := by
    simp [List.filterMap_map, Function.comp_def, FormatPiece.conversion?]
  refine ⟨?_, ?_, ?_, fun values enough => ?_⟩
  · rw [String.toList_append]
    exact (Scans.literal body).append fits.scans
  · rw [List.filterMap_append, noConversion, List.nil_append, fits.conversions,
      List.filter_cons_of_neg (by simp [noValue])]
  · rw [List.filter_cons_of_neg (by simp [noValue])]
    exact fits.args
  · rw [printed_plain, fits.printed values enough, interleaved, isLiteral]
    rfl

theorem value {arg : String} (noLiteral : part.stringBody? = none)
    (rendered : ∀ cx, cx.symbols = table → ∃ final, (expr part).run.run cx = .ok (.ok arg, final))
    (fits : Fits table parts format pieces) : Fits table (part :: parts)
      ⟨formatSpecifier (table.typeOf part) ++ format.text, arg :: format.args⟩
      (.conversion (formatSpecifier (table.typeOf part)).toList :: pieces) := by
  have counts : isValue part = true := by rw [isValue, noLiteral]; rfl
  refine ⟨?_, ?_, ?_, fun values enough => ?_⟩
  · rw [String.toList_append]
    exact (Scans.specifier _).append fits.scans
  · rw [List.filterMap_cons, fits.conversions, List.filter_cons_of_pos counts, List.map_cons]
    simp [FormatPiece.conversion?]
  · rw [List.filter_cons_of_pos counts]
    exact .cons rendered fits.args
  · cases values with
    | nil => cases enough
    | cons first values =>
      rw [C.printed, fits.printed values (Nat.succ.inj enough), interleaved, noLiteral]
      rfl

end Fits

theorem exists_fits (parts : List Expr) {cx after : Context} {format : Format}
    (written : (formatParts parts).run.run cx = .ok (.ok format, after)) :
    ∃ pieces, Fits cx.symbols parts format pieces := by
  induction parts generalizing cx after format with
  | nil =>
    cases written
    exact ⟨[], .nil _⟩
  | cons part rest ih =>
    cases literal : part.stringBody? with
    | some body =>
      rw [formatParts, literal] at written
      obtain ⟨first, between, begun, written⟩ := Trial.bind_eq_ok.mp written
      cases begun
      obtain ⟨others, _, continued, ends⟩ := Trial.bind_eq_ok.mp written
      cases ends
      obtain ⟨pieces, fits⟩ := ih continued
      exact ⟨_, fits.literal literal⟩
    | none =>
      rw [formatParts, literal] at written
      obtain ⟨first, between, begun, written⟩ := Trial.bind_eq_ok.mp written
      obtain ⟨others, _, continued, ends⟩ := Trial.bind_eq_ok.mp written
      cases ends
      obtain ⟨pieces, fits⟩ := ih continued
      rw [(formatValue_consulting part).symbols_eq begun] at fits
      obtain ⟨arg, final, rendered, rfl⟩ := formatValue_eq_ok begun
      refine ⟨_, fits.value literal fun other same => ?_⟩
      exact (expr_consulting part).run_of_symbols same rendered

/-- A format fits its arguments. Let the pieces of a print be written as a format string and a list
of arguments. Then `printf` reads the format string to its end; it finds one conversion for each
piece that is no string literal, in order, and it is that of the piece's type; the arguments are the
texts of these pieces, in order; and with a value in the place of each conversion it prints the
texts of the literals and the values in the order of the pieces. The format string is read as it is
written, before C reads its escapes. -/
theorem formatParts_fit (parts : List Expr) {cx after : Context} {format : Format}
    (written : (formatParts parts).run.run cx = .ok (.ok format, after)) :
    ∃ pieces, pieces? format.text = some pieces ∧
      (pieces.filterMap FormatPiece.conversion? =
        (parts.filter isValue).map fun part => formatSpecifier (cx.symbols.typeOf part)) ∧
      List.Forall₂ (fun part arg => ∃ final, (expr part).run.run cx = .ok (.ok arg, final))
        (parts.filter isValue) format.args ∧
      ∀ values, values.length = format.args.length →
        printed pieces values = some (interleaved parts values) := by
  obtain ⟨pieces, fits⟩ := exists_fits parts written
  refine ⟨pieces, fits.scans.pieces?_eq, fits.conversions, ?_, fits.printed⟩
  exact fits.args.imp fun _ _ rendered => rendered cx rfl

/-- Percent signs on both sides of a conversion, and letters behind one that could belong to it. -/
theorem formatParts_fit_percents :
    let cx : Context :=
      { target := .c, symbols := { inner := [.scalar "n" .int, .scalar "big" .long] } }
    let parts : List Expr := [.literal (.string "%"), .ident "n", .literal (.string "%%l"),
      .ident "big", .literal (.string "d%")]
    ∃ result after, (formatParts parts).run.run cx = .ok (result, after) ∧
      result = .ok ⟨"%%%d%%%%l%lldd%%", ["n", "big"]⟩ ∧
      ∃ pieces, pieces? "%%%d%%%%l%lldd%%" = some pieces ∧
        pieces.filterMap FormatPiece.conversion? = ["%d", "%lld"] ∧
        printed pieces ["7".toList, "-8".toList] = some "%7%%l-8d%".toList := by
  intro cx parts
  have written : ∃ result after, (formatParts parts).run.run cx = .ok (result, after) ∧
      result = .ok ⟨"%%%d%%%%l%lldd%%", ["n", "big"]⟩ := by decide +kernel
  obtain ⟨_, after, written, rfl⟩ := written
  obtain ⟨pieces, read, conversions, -, prints⟩ := formatParts_fit parts written
  exact ⟨_, after, written, rfl, pieces, read, conversions, prints _ rfl⟩

end Retarget.C
