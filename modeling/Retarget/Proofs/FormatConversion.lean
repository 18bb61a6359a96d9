import Mathlib.Data.Bool.AllAny
import Retarget.Proofs.BareText
import Retarget.Proofs.PrintFormat

/-!
# Converted format strings

A format string of the source is kept for `printf` but for a few conversions.
-/

namespace Retarget

/-! ## Format strings of the source -/

namespace SourceFormat

inductive Flag where
  | leftAligned
  | alternate
  | signed
  | blank
  | zeroPadded
  | grouped
  | bracketed
  deriving DecidableEq

def Flag.char : Flag → Char
  | leftAligned => '-'
  | alternate => '#'
  | signed => '+'
  | blank => ' '
  | zeroPadded => '0'
  | grouped => ','
  | bracketed => '('

inductive Letter where
  | decimal
  | hexadecimal (upper : Bool)
  | octal
  | scientific
  | fixed
  | general
  | character
  | text (upper : Bool)
  | truth (upper : Bool)
  deriving DecidableEq

def Letter.char : Letter → Char
  | decimal => 'd'
  | hexadecimal upper => if upper then 'X' else 'x'
  | octal => 'o'
  | scientific => 'e'
  | fixed => 'f'
  | general => 'g'
  | character => 'c'
  | text upper => if upper then 'S' else 's'
  | truth upper => if upper then 'B' else 'b'

def Letter.accepts : Letter → ValueType → Bool
  | decimal, type | hexadecimal _, type | octal, type => type.isIntegral && type ≠ .char
  | scientific, type | fixed, type | general, type => type.isFloating
  | character, type => type.isIntegral && type ≠ .long
  | text _, type | truth _, type => type ≠ .unknown

/-- A conversion, which takes the next argument. -/
structure Conversion where
  flags : List Flag
  width : Option Nat
  precision : Option Nat
  letter : Letter

/-- The part of a format string that is read at once. -/
inductive Directive where
  | plain (c : Char) (noPercent : c ≠ '%')
  | lineEnd
  | percent
  | conversion (conversion : Conversion)

def digits (number : Option Nat) : List Char :=
  number.elim [] (Nat.toDigits 10)

namespace Conversion

def middle (conversion : Conversion) : List Char :=
  conversion.flags.map Flag.char ++ digits conversion.width ++
    conversion.precision.elim [] ('.' :: Nat.toDigits 10 ·)

def spelling (conversion : Conversion) : List Char :=
  '%' :: (conversion.middle ++ [conversion.letter.char])

end Conversion

def Directive.spelling : Directive → List Char
  | plain c _ => [c]
  | lineEnd => ['%', 'n']
  | percent => ['%', '%']
  | conversion c => c.spelling

def Directive.conversion? : Directive → Option Conversion
  | conversion c => some c
  | _ => none

def spelling (directives : List Directive) : String :=
  String.ofList (directives.flatMap Directive.spelling)

def conversions (directives : List Directive) : List Conversion :=
  directives.filterMap Directive.conversion?

end SourceFormat

namespace C

open SourceFormat Text

/-! ## What a format string demands -/

/-- What a conversion of `printf` tells about its argument. -/
structure Demand where
  length : List Char
  letter : Char
  deriving DecidableEq

def wholeLetters : List Char := ['d', 'i', 'o', 'u', 'x', 'X']

def floatingLetters : List Char := ['f', 'F', 'e', 'E', 'g', 'G', 'a', 'A']

/-- Whether a demand is met by an argument of the C type that stands for `type`. Types narrower than
`int` are passed as an `int`, and a `float` as a `double`. -/
def Demand.fits (demand : Demand) : ValueType → Bool
  | .byte | .short | .int | .char | .boolean =>
    demand.length.isEmpty && demand.letter ∈ 'c' :: wholeLetters
  | .long => demand.length = ['l', 'l'] && demand.letter ∈ wholeLetters
  | .float | .double =>
    (demand.length.isEmpty || demand.length = ['l']) && demand.letter ∈ floatingLetters
  | .string => demand.length.isEmpty && demand.letter = 's'
  | .unknown => false

/-- How far the reading of a conversion has come. -/
inductive Stage where
  | start
  | flags
  | width
  | precision
  | length
  deriving DecidableEq

def printfFlags : List Char := ['-', '+', ' ', '#', '0']

def Stage.next? (stage : Stage) (c : Char) : Option Stage :=
  match stage with
  | start | flags =>
    if c ∈ printfFlags then some .flags
    else if c.isDigit then some .width
    else if c = '.' then some .precision else none
  | width => if c.isDigit then some .width else if c = '.' then some .precision else none
  | precision => if c.isDigit then some .precision else none
  | length => none

/-- The demands of a format string in order, as `printf` reads it. A conversion that has been begun
is held with its length modifiers. -/
def demandsFrom : Option (Stage × List Char) → List Char → Option (List Demand)
  | none, [] => some []
  | some _, [] => none
  | none, c :: cs => if c = '%' then demandsFrom (some (.start, [])) cs else demandsFrom none cs
  | some (stage, length), c :: cs =>
    if c = '%' && stage = .start then demandsFrom none cs
    else if c ∈ lengthModifiers then demandsFrom (some (.length, length ++ [c])) cs
    else if c ∈ conversionEnds then (demandsFrom none cs).map (⟨length, c⟩ :: ·)
    else (stage.next? c).bind fun next => demandsFrom (some (next, length)) cs

def demands? (format : String) : Option (List Demand) :=
  demandsFrom none format.toList

/-- Text that takes the reading of a conversion from one stage to another, whatever comes behind. -/
def Passes (stage : Stage) (text : List Char) (later : Stage) : Prop :=
  ∀ rest, demandsFrom (some (stage, [])) (text ++ rest) = demandsFrom (some (later, [])) rest

namespace Passes

variable {stage later last : Stage} {text others : List Char}

theorem nil (stage : Stage) : Passes stage [] stage :=
  fun _ => rfl

theorem append (first : Passes stage text later) (second : Passes later others last) :
    Passes stage (text ++ others) last := by
  intro rest
  rw [List.append_assoc, first, second]

theorem step {c : Char} (next : stage.next? c = some later)
    (inside : c ≠ '%' ∧ c ∉ lengthModifiers ∧ c ∉ conversionEnds) : Passes stage [c] later := by
  intro rest
  obtain ⟨noPercent, noModifier, noEnd⟩ := inside
  simp [demandsFrom, noPercent, noModifier, noEnd, next]

end Passes

def Stage.isEarly : Stage → Bool
  | start | flags | width => true
  | precision | length => false

theorem digit_inside {c : Char} (digit : c.isDigit = true) :
    c ≠ '%' ∧ c ∉ lengthModifiers ∧ c ∉ conversionEnds := by
  have others : ∀ other ∈ '%' :: (lengthModifiers ++ conversionEnds), other.isDigit = false :=
    List.all_iff_forall_prop.mp (by decide)
  have absent : c ∉ '%' :: (lengthModifiers ++ conversionEnds) := fun member =>
    Bool.false_ne_true ((others c member).symm.trans digit)
  simpa [not_or] using absent

theorem passes_digits {stage : Stage} (allowed : stage ≠ .length) {text : List Char}
    (digits : ∀ c ∈ text, c.isDigit = true) :
    ∃ later, Passes stage text later ∧ later.isEarly = stage.isEarly := by
  induction text generalizing stage with
  | nil => exact ⟨stage, .nil stage, rfl⟩
  | cons c text ih =>
    have digit := digits c List.mem_cons_self
    obtain ⟨next, steps, allowedNext, same⟩ : ∃ next, stage.next? c = some next ∧
        next ≠ .length ∧ next.isEarly = stage.isEarly := by
      cases stage with
      | start | flags =>
        by_cases flag : c ∈ printfFlags
        · exact ⟨.flags, if_pos flag, by decide, rfl⟩
        · exact ⟨.width, (if_neg flag).trans (if_pos digit), by decide, rfl⟩
      | width => exact ⟨.width, if_pos digit, by decide, rfl⟩
      | precision => exact ⟨.precision, if_pos digit, by decide, rfl⟩
      | length => exact (allowed rfl).elim
    obtain ⟨later, passes, sameLater⟩ :=
      ih allowedNext fun d member => digits d (List.mem_cons_of_mem c member)
    exact ⟨later, (Passes.step steps (digit_inside digit)).append passes, sameLater.trans same⟩

theorem isDigit_of_mem_digits (number : Option Nat) {c : Char} (member : c ∈ digits number) :
    c.isDigit = true := by
  cases number with
  | none => cases member
  | some n => exact Nat.isDigit_of_mem_toDigits (by omega) (by omega) member

def keptFlags (flags : List Flag) : List Char :=
  (flags.map Flag.char).filter (· ≠ ',')

theorem demandsFrom_flags (flags : List Flag) (stage : Stage) (begun : stage ∈ [.start, .flags]) :
    (.bracketed ∉ flags → ∃ later, Passes stage (keptFlags flags) later ∧ later.isEarly) ∧
      (.bracketed ∈ flags → ∀ rest,
        demandsFrom (some (stage, [])) (keptFlags flags ++ rest) = none) := by
  have early : ∀ stage ∈ [Stage.start, .flags], stage.isEarly = true := by decide
  induction flags generalizing stage with
  | nil => exact ⟨fun _ => ⟨stage, .nil stage, early stage begun⟩, fun member => by cases member⟩
  | cons flag flags ih =>
    -- Every flag but two is passed on and read.
    have read (kept : keptFlags (flag :: flags) = flag.char :: keptFlags flags)
        (other : flag ≠ .bracketed) (passes : Passes stage [flag.char] .flags) :
        (.bracketed ∉ flag :: flags →
          ∃ later, Passes stage (keptFlags (flag :: flags)) later ∧ later.isEarly) ∧
        (.bracketed ∈ flag :: flags → ∀ rest,
          demandsFrom (some (stage, [])) (keptFlags (flag :: flags) ++ rest) = none) := by
      obtain ⟨passed, refused⟩ := ih .flags (by decide)
      rw [kept]
      refine ⟨fun absent => ?_, fun member rest => ?_⟩
      · obtain ⟨later, behind, earlyLater⟩ := passed fun member =>
          absent (List.mem_cons_of_mem flag member)
        exact ⟨later, passes.append behind, earlyLater⟩
      · rw [List.cons_append, ← List.singleton_append, passes]
        exact refused ((List.mem_cons.mp member).resolve_left (Ne.symm other)) rest
    have flagged (c : Char) (isFlag : c ∈ printfFlags)
        (inside : c ≠ '%' ∧ c ∉ lengthModifiers ∧ c ∉ conversionEnds) :
        Passes stage [c] .flags := by
      refine .step ?_ inside
      simp only [List.mem_cons, List.not_mem_nil, or_false] at begun
      obtain rfl | rfl := begun <;> exact if_pos isFlag
    cases flag with
    | leftAligned | alternate | signed | blank | zeroPadded =>
      exact read rfl (by decide) (flagged _ (by decide) (by decide))
    | grouped =>
      have member_iff : Flag.bracketed ∈ Flag.grouped :: flags ↔ Flag.bracketed ∈ flags := by simp
      rw [member_iff]
      exact ih stage begun
    | bracketed =>
      refine ⟨fun absent => (absent List.mem_cons_self).elim, fun _ rest => ?_⟩
      have kept : keptFlags (.bracketed :: flags) = '(' :: keptFlags flags := rfl
      have stuck : stage.next? '(' = none := by
        simp only [List.mem_cons, List.not_mem_nil, or_false] at begun
        obtain rfl | rfl := begun <;> rfl
      have inside : '(' ≠ '%' ∧ '(' ∉ lengthModifiers ∧ '(' ∉ conversionEnds := by decide
      simp [kept, demandsFrom, inside, stuck]

/-! ## What a conversion becomes -/

def writtenLetters (letter : Letter) (type : ValueType) : List Char :=
  (convertSpec [] type letter.char).1

theorem convertSpec_letter (spec : List Char) (letter : Letter) (type : ValueType) :
    convertSpec spec type letter.char = (spec ++ writtenLetters letter type, true) := by
  cases letter with
  | decimal | octal | scientific | fixed | general | character => rfl
  | hexadecimal upper => cases upper <;> rfl
  | text upper => cases upper <;> cases type <;> rfl
  | truth upper => cases upper <;> rfl

/-- A conversion is kept with the letters for its argument and without the grouping flag. -/
def written (conversion : Conversion) (type : ValueType) : List Char :=
  '%' :: (conversion.middle.filter (· ≠ ',') ++ writtenLetters conversion.letter type)

theorem convertFrom_middle {text : List Char} (inside : ∀ c ∈ text, endsFlags c = false)
    (spec : List Char) (types : List ValueType) (rest : List Char) :
    convertFrom (some spec) types (text ++ rest) =
      convertFrom (some ((text.filter (· ≠ ',')).reverse ++ spec)) types rest := by
  induction text generalizing spec with
  | nil => rfl
  | cons c text ih =>
    have later := ih fun d member => inside d (List.mem_cons_of_mem c member)
    have goesOn := inside c List.mem_cons_self
    rw [List.cons_append, convertFrom]
    simp only [goesOn, Bool.false_eq_true, if_false]
    split
    next comma =>
      rw [later, List.filter_cons_of_neg (by simp [comma])]
    next other =>
      rw [later, List.filter_cons_of_pos (by simp [other])]
      simp

theorem endsFlags_middle (conversion : Conversion) :
    ∀ c ∈ conversion.middle, endsFlags c = false := by
  have digit {c : Char} (digit : c.isDigit = true) : endsFlags c = false := by
    have noLetter : c.isAlpha = false := Bool.eq_false_iff.mpr fun letter => by
      have range := Degraded.toNat_of_isAlpha letter
      have small := (Char.isDigit_iff_toNat.mp digit).2
      have nine : '9'.toNat = 57 := by decide
      omega
    rw [endsFlags, noLetter, Bool.false_or, decide_eq_false (digit_inside digit).1]
  intro c member
  simp only [Conversion.middle, List.mem_append, List.mem_map] at member
  obtain (⟨flag, -, rfl⟩ | wide) | precise := member
  · cases flag <;> decide
  · exact digit (isDigit_of_mem_digits _ wide)
  · cases precision : conversion.precision with
    | none =>
      rw [precision] at precise
      cases precise
    | some n =>
      rw [precision] at precise
      obtain rfl | behind := List.mem_cons.mp precise
      · decide
      · exact digit (isDigit_of_mem_digits (some n) behind)

theorem endsFlags_letter (letter : Letter) : endsFlags letter.char = true := by
  cases letter with
  | decimal | octal | scientific | fixed | general | character => decide
  | hexadecimal upper | text upper | truth upper => cases upper <;> decide

theorem convertFrom_conversion (conversion : Conversion) (type : ValueType)
    (types : List ValueType) (rest : List Char) :
    convertFrom none (type :: types) (conversion.spelling ++ rest) =
      written conversion type ++ convertFrom none types rest := by
  have begins (cs : List Char) : convertFrom none (type :: types) ('%' :: cs) =
      convertFrom (some ['%']) (type :: types) cs := rfl
  rw [Conversion.spelling, List.cons_append, begins, List.append_assoc,
    convertFrom_middle (endsFlags_middle conversion), List.singleton_append, convertFrom,
    if_pos (endsFlags_letter conversion.letter)]
  simp [convertSpec_letter, written]

/-! ## Formats that fit -/

/-- Whether the letter of a conversion is written in a way that does not fit an argument. -/
def misses : Letter → ValueType → Bool
  | .hexadecimal _, .long | .octal, .long => true
  | .text true, .string => true
  | .truth _, .long | .truth _, .float | .truth _, .double | .truth _, .string => true
  | _, _ => false

def conversionMisses (conversion : Conversion) (type : ValueType) : Bool :=
  .bracketed ∈ conversion.flags || misses conversion.letter type

def demandOf? (letters : List Char) : Option Demand :=
  (demandsFrom (some (.start, [])) letters).bind List.head?

theorem demandsFrom_writtenLetters (letter : Letter) (type : ValueType) (stage : Stage)
    (rest : List Char) : demandsFrom (some (stage, [])) (writtenLetters letter type ++ rest) =
      (demandOf? (writtenLetters letter type)).bind fun demand =>
        (demandsFrom none rest).map (demand :: ·) := by
  cases letter with
  | decimal => cases type <;> rfl
  | octal | scientific | fixed | general | character => rfl
  | hexadecimal upper | truth upper => cases upper <;> rfl
  | text upper =>
    cases upper with
    | false => cases type <;> rfl
    | true => cases type <;> cases stage <;> rfl

theorem fits_writtenLetters {letter : Letter} {type : ValueType}
    (legal : letter.accepts type = true) :
    (demandOf? (writtenLetters letter type)).any (·.fits type) = !misses letter type := by
  revert legal
  cases letter with
  | decimal | octal | scientific | fixed | general | character => cases type <;> decide
  | hexadecimal upper | text upper | truth upper => cases upper <;> cases type <;> decide

theorem middle_filter (conversion : Conversion) : conversion.middle.filter (· ≠ ',') =
    keptFlags conversion.flags ++ (digits conversion.width ++
      conversion.precision.elim [] ('.' :: Nat.toDigits 10 ·)) := by
  have noComma {c : Char} (digit : c.isDigit = true) : c ≠ ',' := by
    rintro rfl
    cases digit
  have wide : (digits conversion.width).filter (· ≠ ',') = digits conversion.width :=
    List.filter_eq_self.mpr fun c member => by simpa using noComma (isDigit_of_mem_digits _ member)
  rw [Conversion.middle, List.filter_append, List.filter_append, wide, List.append_assoc]
  cases conversion.precision with
  | none => rfl
  | some n =>
    have precise : (Nat.toDigits 10 n).filter (· ≠ ',') = Nat.toDigits 10 n :=
      List.filter_eq_self.mpr fun c member => by
        simpa using noComma (isDigit_of_mem_digits (some n) member)
    change _ ++ (_ ++ ('.' :: Nat.toDigits 10 n).filter (· ≠ ',')) = _
    rw [List.filter_cons_of_pos (by decide), precise]
    rfl

theorem passes_numbers (width precision : Option Nat) {stage : Stage}
    (early : stage.isEarly = true) : ∃ later,
      Passes stage (digits width ++ precision.elim [] ('.' :: Nat.toDigits 10 ·)) later := by
  have allowed : stage ≠ .length := by
    rintro rfl
    cases early
  obtain ⟨middle, wide, same⟩ :=
    passes_digits allowed fun c member => isDigit_of_mem_digits width member
  cases precision with
  | none => exact ⟨middle, wide.append (.nil middle)⟩
  | some n =>
    have point : Passes middle ['.'] .precision := by
      refine .step ?_ (by decide)
      cases middle with
      | start | flags | width => rfl
      | precision | length => cases early.symm.trans same.symm
    obtain ⟨later, precise, -⟩ := passes_digits (by decide : Stage.precision ≠ .length)
      fun c member => isDigit_of_mem_digits (some n) member
    exact ⟨later, wide.append (point.append precise)⟩

theorem demandsFrom_written (conversion : Conversion) {type : ValueType}
    (legal : conversion.letter.accepts type = true) :
    ∃ demand?, (∀ rest, demandsFrom none (written conversion type ++ rest) =
        Option.bind demand? fun demand => (demandsFrom none rest).map (demand :: ·)) ∧
      demand?.any (·.fits type) = !conversionMisses conversion type := by
  have begins (cs : List Char) :
      demandsFrom none ('%' :: cs) = demandsFrom (some (.start, [])) cs := rfl
  obtain ⟨passed, refused⟩ := demandsFrom_flags conversion.flags .start (by decide)
  have spelled (rest : List Char) : demandsFrom none (written conversion type ++ rest) =
      demandsFrom (some (.start, [])) (keptFlags conversion.flags ++ ((digits conversion.width ++
        conversion.precision.elim [] ('.' :: Nat.toDigits 10 ·)) ++
          (writtenLetters conversion.letter type ++ rest))) := by
    rw [written, middle_filter, List.cons_append, begins]
    simp only [List.append_assoc]
  by_cases bracket : .bracketed ∈ conversion.flags
  · refine ⟨none, fun rest => ?_, by simp [conversionMisses, bracket]⟩
    rw [spelled]
    exact refused bracket _
  · obtain ⟨middle, flags, early⟩ := passed bracket
    obtain ⟨stage, numbers⟩ := passes_numbers conversion.width conversion.precision early
    refine ⟨demandOf? (writtenLetters conversion.letter type), fun rest => ?_, ?_⟩
    · rw [spelled, flags, numbers]
      exact demandsFrom_writtenLetters conversion.letter type stage rest
    · rw [fits_writtenLetters legal]
      simp [conversionMisses, bracket]

/-- A converted format fits its arguments exactly if no conversion misses its own. For a format
string of literal text, line ends, percent signs and conversions with any flags, width and
precision, and types that the conversions may be given, possibly followed by spare ones: `printf`
reads the converted format and demands one argument for each conversion, in order and of the C type
that stands for its own type, if and only if there is no bracket among the flags, no hexadecimal or
octal conversion of a `long`, no string in capitals, and no truth value of a `long`, a floating-point
number or a string. -/
theorem convertFormat_fits_iff {directives : List Directive} {types : List ValueType}
    (spare : List ValueType)
    (legal : List.Forall₂ (fun conversion type => conversion.letter.accepts type = true)
      (conversions directives) types) :
    (∃ demands, demands? (convertFormat (types ++ spare) (spelling directives)) = some demands ∧
      List.Forall₂ (fun demand type => demand.fits type = true) demands types) ↔
    List.Forall₂ (fun conversion type => conversionMisses conversion type = false)
      (conversions directives) types := by
  simp only [demands?, convertFormat, spelling, String.toList_ofList]
  induction directives generalizing types with
  | nil =>
    cases legal
    exact iff_of_true ⟨[], rfl, .nil⟩ .nil
  | cons directive directives ih =>
    rw [List.flatMap_cons]
    cases directive with
    | plain c noPercent =>
      have kept (cs : List Char) : demandsFrom none (convertFrom none (types ++ spare)
          ([c] ++ cs)) = demandsFrom none (convertFrom none (types ++ spare) cs) := by
        rw [List.singleton_append, convertFrom, if_neg noPercent, demandsFrom, if_neg noPercent]
      rw [Directive.spelling, kept]
      exact ih legal
    | lineEnd => exact ih legal
    | percent => exact ih legal
    | conversion conversion =>
      obtain ⟨type, types, accepted, others, rfl⟩ := List.forall₂_cons_left_iff.mp legal
      rw [Directive.spelling, List.cons_append, convertFrom_conversion]
      obtain ⟨demand?, reads, fits⟩ := demandsFrom_written conversion accepted
      rw [reads]
      cases demand? with
      | none =>
        have missed : conversionMisses conversion type = true := by simpa using fits
        refine iff_of_false (fun ⟨_, read, _⟩ => by cases read) fun noneMissed => ?_
        cases missed.symm.trans (List.forall₂_cons.mp noneMissed).1
      | some demand =>
        rw [Option.any_some] at fits
        constructor
        · rintro ⟨demands, read, met⟩
          obtain ⟨further, later, rfl⟩ := Option.map_eq_some_iff.mp read
          obtain ⟨first, behind⟩ := List.forall₂_cons.mp met
          refine .cons ?_ ((ih others).mp ⟨further, later, behind⟩)
          simpa [first] using fits.symm
        · intro noneMissed
          obtain ⟨first, behind⟩ := List.forall₂_cons.mp noneMissed
          obtain ⟨further, later, met⟩ := (ih others).mpr behind
          refine ⟨demand :: further, by rw [later]; rfl, .cons ?_ met⟩
          rw [fits, first]
          rfl

/-- Flags, widths and a precision around a percent sign, and an argument that no conversion takes. -/
theorem convertFormat_fits_iff_report :
    let directives : List Directive :=
      [.conversion ⟨[.leftAligned], some 5, none, .decimal⟩, .plain '|' (by decide),
        .conversion ⟨[.grouped, .signed], some 10, some 2, .fixed⟩, .percent,
        .conversion ⟨[], some 8, none, .text true⟩, .lineEnd]
    let types : List ValueType := [.long, .double, .int]
    let format := "%-5lld|%+10.2f%%%8d\\n"
    List.Forall₂ (fun conversion type => conversion.letter.accepts type = true)
        (conversions directives) types ∧
      spelling directives = "%-5d|%,+10.2f%%%8S%n" ∧
      convertFormat (types ++ [.boolean]) (spelling directives) = format ∧
      ∃ demands, demands? format = some demands ∧
        List.Forall₂ (fun demand type => demand.fits type = true) demands types := by
  intro directives types format
  have legal : List.Forall₂ (fun conversion type => conversion.letter.accepts type = true)
      (conversions directives) types :=
    .cons rfl (.cons rfl (.cons rfl .nil))
  have converted : convertFormat (types ++ [.boolean]) (spelling directives) = format := by decide
  refine ⟨legal, by decide, converted, ?_⟩
  rw [← converted]
  exact (convertFormat_fits_iff [.boolean] legal).mpr (.cons rfl (.cons rfl (.cons rfl .nil)))

/-- Conversions that may be given their arguments and miss them: a `long` in hexadecimal, a string
in capitals, the truth value of a string, and a number in brackets. -/
theorem convertFormat_misses :
    let fits (conversion : Conversion) (type : ValueType) : Prop := ∃ demands,
      demands? (convertFormat [type] (spelling [.conversion conversion])) = some demands ∧
        List.Forall₂ (fun demand type => demand.fits type = true) demands [type]
    let accepts (conversion : Conversion) (type : ValueType) : Prop :=
      conversion.letter.accepts type = true
    let plain (letter : Letter) : Conversion := ⟨[], none, none, letter⟩
    let bracketed : Conversion := ⟨[.bracketed], none, none, .decimal⟩
    (accepts (plain (.hexadecimal false)) .long ∧ ¬fits (plain (.hexadecimal false)) .long) ∧
      (accepts (plain (.text true)) .string ∧ ¬fits (plain (.text true)) .string) ∧
      (accepts (plain (.truth false)) .string ∧ ¬fits (plain (.truth false)) .string) ∧
      (accepts bracketed .int ∧ ¬fits bracketed .int) := by
  intro fits accepts plain bracketed
  have unread {conversion : Conversion} {type : ValueType}
      (refused : demands? (convertFormat [type] (spelling [.conversion conversion])) = none) :
      ¬fits conversion type := by
    rintro ⟨demands, read, -⟩
    cases refused.symm.trans read
  have unmet {conversion : Conversion} {type : ValueType} {demand : Demand}
      (read : demands? (convertFormat [type] (spelling [.conversion conversion])) = some [demand])
      (misses : demand.fits type = false) : ¬fits conversion type := by
    rintro ⟨demands, again, met⟩
    cases read.symm.trans again
    rw [(List.forall₂_cons.mp met).1] at misses
    cases misses
  have hexadecimal : demands? (convertFormat [.long] "%x") = some [⟨[], 'x'⟩] := by decide
  have truth : demands? (convertFormat [.string] "%b") = some [⟨[], 'd'⟩] := by decide
  have capitals : demands? (convertFormat [.string] "%S") = none := by decide
  have brackets : demands? (convertFormat [.int] "%(d") = none := by decide
  exact ⟨⟨rfl, unmet hexadecimal rfl⟩, ⟨rfl, unread capitals⟩, ⟨rfl, unmet truth rfl⟩,
    ⟨rfl, unread brackets⟩⟩

end C

end Retarget
