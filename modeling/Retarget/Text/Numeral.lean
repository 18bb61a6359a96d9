/-!
# Numerals

Reading a signed 64-bit integer in a given radix: an optional sign, then at least one digit, and a
value that fits. Digits above nine are letters of either case.
-/

namespace Retarget.Text

def minInteger : Int := -9223372036854775808

def maxInteger : Int := 9223372036854775807

def isInteger (value : Int) : Bool :=
  minInteger ≤ value && value ≤ maxInteger

def digitValue (c : Char) : Option Nat :=
  if '0' ≤ c && c ≤ '9' then some (c.toNat - '0'.toNat)
  else if 'a' ≤ c && c ≤ 'z' then some (c.toNat - 'a'.toNat + 10)
  else if 'A' ≤ c && c ≤ 'Z' then some (c.toNat - 'A'.toNat + 10)
  else none

def digitsValue (radix : Nat) (value : Nat) : List Char → Option Nat
  | [] => some value
  | c :: cs =>
    match digitValue c with
    | some d => if d < radix then digitsValue radix (value * radix + d) cs else none
    | none => none

/-- The value of a numeral without a sign: one digit or more. -/
def unsignedValue (radix : Nat) : List Char → Option Nat
  | [] => none
  | c :: cs => digitsValue radix 0 (c :: cs)

def signedValue (radix : Nat) : List Char → Option Int
  | [] => none
  | c :: cs =>
    if c = '-' then (unsignedValue radix cs).map fun n => -(n : Int)
    else if c = '+' then (unsignedValue radix cs).map fun n => (n : Int)
    else (unsignedValue radix (c :: cs)).map fun n => (n : Int)

def integerValue (radix : Nat) (cs : List Char) : Option Int :=
  (signedValue radix cs).filter isInteger

end Retarget.Text
