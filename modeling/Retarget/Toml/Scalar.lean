import Retarget.Text.Numeral
import Retarget.Toml.Value

/-!
# TOML scalars without quotes

Booleans, integers, floats, dates and times, each a word of letters, digits and a few signs.
-/

namespace Retarget.Toml

def isWordMark (c : Char) : Bool :=
  c.isAlphanum || c = '+' || c = '-' || c = '_' || c = '.' || c = ':'

def digitRun (isDigit : Char → Bool) (afterDigit : Bool) : List Char → Option (List Char)
  | [] => if afterDigit then some [] else none
  | c :: cs =>
    if isDigit c then (digitRun isDigit true cs).map (c :: ·)
    else if c = '_' && afterDigit then digitRun isDigit false cs
    else none

def decimalRun (cs : List Char) : Option (List Char) :=
  digitRun Char.isDigit false cs

def wholeRun (cs : List Char) : Option (List Char) :=
  (decimalRun cs).filter fun digits => digits.length = 1 || digits.head? != some '0'

def splitSign : List Char → Bool × List Char
  | '+' :: cs => (false, cs)
  | '-' :: cs => (true, cs)
  | cs => (false, cs)

def digitsValue (base : Nat) (digits : List Char) : Nat :=
  digits.foldl (fun value c => value * base + (Text.digitValue c).getD 0) 0

def baseInteger (base : Nat) (cs : List Char) : Option Int :=
  (digitRun (fun c => (Text.digitValue c).any (· < base)) false cs).map fun digits =>
    digitsValue base digits

def decimalInteger (cs : List Char) : Option Int :=
  let (negative, cs) := splitSign cs
  (wholeRun cs).map fun digits =>
    let magnitude : Int := digitsValue 10 digits
    if negative then -magnitude else magnitude

def integer? (word : List Char) : Option Int :=
  (match word with
    | '0' :: 'x' :: cs => baseInteger 16 cs
    | '0' :: 'o' :: cs => baseInteger 8 cs
    | '0' :: 'b' :: cs => baseInteger 2 cs
    | cs => decimalInteger cs).filter Text.isInteger

def splitAtFirst (p : Char → Bool) (cs : List Char) : List Char × Option (List Char) :=
  match cs.span fun c => !p c with
  | (before, []) => (before, none)
  | (before, _ :: after) => (before, some after)

/-- The least number that is too large for a double: halfway from the greatest one to the next
power of two. -/
def doubleBound : Nat := Nat.pow 2 1024 - Nat.pow 2 970

def exceedsDouble (digits : List Char) (exponent : Int) : Bool :=
  let digits := digits.dropWhile (· = '0')
  let magnitude := digits.length + exponent
  if magnitude > 310 then !digits.isEmpty
  else if magnitude < 300 then false
  else if exponent ≥ 0 then doubleBound ≤ digitsValue 10 digits * Nat.pow 10 exponent.toNat
  else doubleBound * Nat.pow 10 (-exponent).toNat ≤ digitsValue 10 digits

def exponentValue (cs : List Char) : Option Int :=
  let (negative, cs) := splitSign cs
  (decimalRun cs).map fun digits =>
    let magnitude : Int := digitsValue 10 digits
    if negative then -magnitude else magnitude

/-- Whether a word without its sign is a float in digits; those too large for a double are none
unless they are negative. -/
def isDigitFloat (negative : Bool) (cs : List Char) : Bool :=
  let (mantissa, exponent) := splitAtFirst (fun c => c = 'e' || c = 'E') cs
  let (whole, fraction) := splitAtFirst (· = '.') mantissa
  (exponent.isSome || fraction.isSome) &&
    match wholeRun whole, decimalRun (fraction.getD ['0']), exponentValue (exponent.getD ['0']) with
    | some whole, some fraction, some exponent =>
      negative || !exceedsDouble (whole ++ fraction) (exponent - fraction.length)
    | _, _, _ => false

def isFloat (word : List Char) : Bool :=
  let (negative, cs) := splitSign word
  cs = ['i', 'n', 'f'] || cs = ['n', 'a', 'n'] || isDigitFloat negative cs

def fixedNumber (digits : List Char) : Option Nat :=
  if digits.all Char.isDigit then some (digitsValue 10 digits) else none

def daysIn (year month : Nat) : Nat :=
  if month = 2 then
    if year % 4 = 0 && (year % 100 != 0 || year % 400 = 0) then 29 else 28
  else if month = 4 || month = 6 || month = 9 || month = 11 then 30
  else 31

def isDate : List Char → Bool
  | [y₁, y₂, y₃, y₄, '-', m₁, m₂, '-', d₁, d₂] =>
    match fixedNumber [y₁, y₂, y₃, y₄], fixedNumber [m₁, m₂], fixedNumber [d₁, d₂] with
    | some year, some month, some day =>
      1 ≤ month && month ≤ 12 && 1 ≤ day && day ≤ daysIn year month
    | _, _, _ => false
  | _ => false

def isPairUpTo (bound : Nat) (digits : List Char) : Bool :=
  digits.length = 2 && (fixedNumber digits).any (· ≤ bound)

def afterTime? : List Char → Option (List Char)
  | h₁ :: h₂ :: ':' :: m₁ :: m₂ :: ':' :: s₁ :: s₂ :: rest =>
    if isPairUpTo 23 [h₁, h₂] && isPairUpTo 59 [m₁, m₂] && isPairUpTo 60 [s₁, s₂] then
      match rest with
      | '.' :: fraction =>
        if (fraction.head?).any Char.isDigit then some (fraction.dropWhile Char.isDigit) else none
      | rest => some rest
    else none
  | _ => none

def isOffset : List Char → Bool
  | [] | ['Z'] | ['z'] => true
  | [sign, h₁, h₂, ':', m₁, m₂] =>
    (sign = '+' || sign = '-') && isPairUpTo 23 [h₁, h₂] && isPairUpTo 59 [m₁, m₂]
  | _ => false

def isTime (word : List Char) : Bool :=
  afterTime? word = some []

def isZonedTime (word : List Char) : Bool :=
  (afterTime? word).any isOffset

def isDateTime (word : List Char) : Bool :=
  isTime word || isDate word ||
    (isDate (word.take 10) &&
      match word.drop 10 with
      | delimiter :: time => (delimiter = 'T' || delimiter = 't') && isZonedTime time
      | [] => false)

def wordValue (word : List Char) : Option Value :=
  if word = ['t', 'r', 'u', 'e'] then some (.boolean true)
  else if word = ['f', 'a', 'l', 's', 'e'] then some (.boolean false)
  else if isDateTime word then some (.dateTime (String.ofList word))
  else if isFloat word then some (.float (String.ofList word))
  else (integer? word).map .integer

/-- The value of the word at the beginning of the characters. A date may be followed by a blank and
a time. -/
def readWord (cs : List Char) : Option (Value × List Char) :=
  let (word, rest) := cs.span isWordMark
  match rest with
  | ' ' :: c :: more =>
    if isDate word && c.isDigit then
      let (time, rest) := (c :: more).span isWordMark
      if isZonedTime time then
        some (.dateTime (String.ofList (word ++ ' ' :: time)), rest)
      else none
    else (wordValue word).map (·, rest)
  | _ => (wordValue word).map (·, rest)

end Retarget.Toml
