import Retarget.Degraded.Shape

/-!
# Simple values

Values simple enough to be carried over token by token: one quoted literal, or names, numbers and
the signs of simple arithmetic. A number loses its type suffix on the way.
-/

namespace Retarget.Degraded

open Text

/-- A piece of a value: a number with the suffix that it loses, a name, or any other character. -/
inductive Token where
  | number (digits : List Char) (suffix : Char)
  | word (name : List Char)
  | other (c : Char)
  deriving DecidableEq, Inhabited

def Token.name? : Token → Option String
  | number digits suffix => some (String.ofList (digits ++ [suffix]))
  | word name => some (String.ofList name)
  | other _ => none

def isSuffix (c : Char) : Bool :=
  c ∈ ['l', 'L', 'f', 'F', 'd', 'D']

def atWordEnd : List Char → Bool
  | [] => true
  | c :: _ => !isWordChar c

def numeralLength (cs : List Char) : Nat :=
  let whole := (cs.takeWhile isDecimalDigit).length
  match cs.drop whole with
  | '.' :: rest => whole + 1 + (rest.takeWhile isDecimalDigit).length
  | _ => whole

/-- The length of a numeral at the beginning whose suffix ends a word; zero if there is none. -/
def suffixedLength (cs : List Char) : Nat :=
  if cs.head?.any isDecimalDigit then
    let n := numeralLength cs
    match cs.drop n with
    | suffix :: rest => if isSuffix suffix && atWordEnd rest then n else 0
    | [] => 0
  else 0

/-- The tokens of a value. The first `skip` characters belong to the token before, and `inWord`
says that the character before is a word character. -/
def tokensFrom (skip : Nat) (inWord : Bool) : List Char → List Token
  | [] => []
  | c :: cs =>
    match skip with
    | skip + 1 => tokensFrom skip inWord cs
    | 0 =>
      let n := if inWord then 0 else suffixedLength (c :: cs)
      match n, (c :: cs).drop n with
      | n + 1, suffix :: _ =>
        .number ((c :: cs).take (n + 1)) suffix :: tokensFrom (n + 1) true cs
      | _, _ =>
        if isNameStart c then
          let rest := cs.takeWhile isNameChar
          .word (c :: rest) :: tokensFrom rest.length true cs
        else .other c :: tokensFrom 0 (isWordChar c) cs

def tokens (cs : List Char) : List Token :=
  tokensFrom 0 false cs

def names (value : String) : List String :=
  (tokens value.toList).filterMap Token.name?

def isArithmeticChar (c : Char) : Bool :=
  isWordChar c || isBlank c || c ∈ ['$', '.', '+', '-', '*', '%', '(', ')']

def isSimple (cs : List Char) : Bool :=
  isStringLiteral cs || isCharLiteral cs || (!cs.isEmpty && cs.all isArithmeticChar)

/-- The value with `spell` applied to its names and without the suffixes of its numbers, if it is
simple. -/
def respelled? (spell : String → String) (value : String) : Option String :=
  let cs := trimChars value.toList
  if isSimple cs then
    if cs.head? = some '"' || cs.head? = some '\'' then some (String.ofList cs)
    else
      some <| String.join <| (tokens cs).map fun
        | .number digits _ => String.ofList digits
        | .word name => spell (String.ofList name)
        | .other c => String.ofList [c]
  else none

end Retarget.Degraded
