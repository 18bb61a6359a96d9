/-!
# Faults

Arithmetic on machine words that leaves their range. A fault ends a conversion at once, while an
ordinary refusal only costs the statement it concerns.
-/

namespace Retarget

/-- The operation whose result did not fit. -/
inductive Fault where
  | add
  | subtract
  | multiply
  | negate
  | capacity
  deriving DecidableEq, Inhabited

def Fault.message : Fault → String
  | add => "attempt to add with overflow"
  | subtract => "attempt to subtract with overflow"
  | multiply => "attempt to multiply with overflow"
  | negate => "attempt to negate with overflow"
  | capacity => "capacity overflow"

def wordCount : Nat := 18446744073709551616

def maxTextSize : Nat := 9223372036854775807

def addWords (a b : Nat) : Except Fault Nat :=
  if a + b < wordCount then .ok (a + b) else .error .add

def mulWords (a b : Nat) : Except Fault Nat :=
  if a * b < wordCount then .ok (a * b) else .error .multiply

def spaces (count : Nat) : Except Fault String :=
  if count ≤ maxTextSize then .ok (String.ofList (List.replicate count ' '))
  else .error .capacity

end Retarget
