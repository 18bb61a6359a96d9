import Retarget.Program.ValueType
import Retarget.Text.Basic
import Retarget.Text.Literal
import Retarget.Text.Word

/-!
# Line shapes

The few shapes of a statement that are recognised in its bare text: the declaration of a simple
variable, the print of a string literal and a simple assignment. Each has to take up the whole
text.
-/

namespace Retarget.Degraded

open Text

inductive Shape where
  | declaration (type : ValueType) (name : String) (value : Option String)
  | print (body : String) (newline : Bool)
  | assignment (name op value : String)
  deriving DecidableEq, Inhabited

def isNameStart (c : Char) : Bool :=
  c.isAlpha || c = '_' || c = '$'

def isNameChar (c : Char) : Bool :=
  isWordChar c || c = '$'

def name? : List Char → Option (List Char × List Char)
  | c :: cs =>
    if isNameStart c then some (c :: cs.takeWhile isNameChar, cs.dropWhile isNameChar) else none
  | [] => none

def afterWord? (word : String) (cs : List Char) : Option (List Char) :=
  match after? word.toList cs with
  | some (c :: rest) => if isBlank c then some (rest.dropWhile isBlank) else none
  | _ => none

def declaredTypes : List (String × ValueType) :=
  [("byte", .byte), ("short", .short), ("int", .int), ("long", .long), ("float", .float),
    ("double", .double), ("boolean", .boolean), ("char", .char), ("String", .string)]

/-- The value between an assignment sign and the semicolon that ends the text. It stands on one
line and loses the blanks around it; among blanks alone the last one on a line counts. -/
def value? (cs : List Char) : Option String :=
  if cs.getLast? = some ';' then
    let body := cs.dropLast
    let core := trimChars body
    if core.isEmpty then
      (body.reverse.find? (· ≠ '\n')).map fun c => String.ofList [c]
    else if '\n' ∈ core then none
    else some (String.ofList core)
  else none

def declaration? (cs : List Char) : Option Shape := do
  let cs := (afterWord? "final" cs).getD cs
  let (type, cs) ← declaredTypes.findSome? fun (word, type) =>
    (afterWord? word cs).map fun rest => (type, rest)
  let (name, cs) ← name? cs
  match cs.dropWhile isBlank with
  | [';'] => some (.declaration type (String.ofList name) none)
  | '=' :: rest => (value? rest).map fun v => .declaration type (String.ofList name) (some v)
  | _ => none

/-- What follows the method name of a print statement, and whether the print ends its line. -/
def printMethod? (cs : List Char) : Option (Bool × List Char) := do
  let cs ← after? "System.out.print".toList cs
  match after? "ln".toList cs with
  | some rest => some (true, rest)
  | none => some (false, cs)

def print? (cs : List Char) : Option Shape := do
  let (newline, cs) ← printMethod? cs
  let cs ← after? "(".toList (cs.dropWhile isBlank)
  let cs := cs.dropWhile isBlank
  let (body, cs) := (stringLiteral? cs).getD ([], cs)
  let cs ← after? ")".toList (cs.dropWhile isBlank)
  if cs.dropWhile isBlank = [';'] then some (.print (String.ofList body) newline) else none

def assignmentOps : List String := ["=", "+=", "-=", "*="]

def assignment? (cs : List Char) : Option Shape := do
  let (name, cs) ← name? cs
  let cs := cs.dropWhile isBlank
  let (op, cs) ← assignmentOps.findSome? fun op =>
    (after? op.toList cs).map fun rest => (op, rest)
  let value ← value? cs
  return .assignment (String.ofList name) op value

def shape? (text : String) : Option Shape :=
  let cs := trimChars text.toList
  declaration? cs <|> print? cs <|> assignment? cs

end Retarget.Degraded
