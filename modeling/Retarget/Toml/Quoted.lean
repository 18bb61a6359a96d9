import Retarget.Text.Numeral

/-!
# TOML strings

The four forms of strings: between quotes with escapes or between apostrophes without, on one line
or, with the mark three times, on several. Each reader starts after the opening mark and gives the
text with what follows the closing one.
-/

namespace Retarget.Toml

/-- The characters that comments and strings may hold: no control characters but the tab. -/
def isPlain (c : Char) : Bool :=
  c = '\t' || (0x20 ≤ c.toNat && c.toNat != 0x7F)

def escaped? : Char → Option Char
  | 'b' => some '\x08'
  | 't' => some '\t'
  | 'n' => some '\n'
  | 'f' => some '\x0c'
  | 'r' => some '\r'
  | '\x22' => some '\x22'
  | '\\' => some '\\'
  | _ => none

def scalar? (n : Nat) : Option Char :=
  if n.isValidChar then some (Char.ofNat n) else none

inductive EscapeState where
  | plain
  | backslash
  /-- Inside a code point of which `left + 1` digits are to come. -/
  | code (left value : Nat)
  /-- In the blanks after a backslash at the end of a line; `broken` after the line break. -/
  | gap (broken : Bool)
  deriving DecidableEq, Inhabited

def prepend (c : Char) (rest : Option (List Char × List Char)) :
    Option (List Char × List Char) :=
  rest.map fun (text, rest) => (c :: text, rest)

/-- A text whose closing marks are followed by up to two more, which belong to the text. -/
def closeLong (mark : Char) : List Char → List Char × List Char
  | c :: d :: rest =>
    if c = mark && d = mark then ([mark, mark], rest)
    else if c = mark then ([mark], d :: rest)
    else ([], c :: d :: rest)
  | [c] => if c = mark then ([mark], []) else ([], [c])
  | [] => ([], [])

def codeStep (left value : Nat) (c : Char) : Option (EscapeState × Option Char) := do
  let digit ← (Text.digitValue c).filter (· < 16)
  let value := value * 16 + digit
  match left with
  | 0 => return (.plain, some (← scalar? value))
  | left + 1 => return (.code left value, none)

def backslashStep (c : Char) : Option (EscapeState × Option Char) :=
  match c with
  | 'u' => some (.code 3 0, none)
  | 'U' => some (.code 7 0, none)
  | c => (escaped? c).map fun c => (.plain, some c)

def readBasic (state : EscapeState) : List Char → Option (List Char × List Char)
  | [] => none
  | c :: cs =>
    match state with
    | .backslash =>
      match backslashStep c with
      | some (state, some c) => prepend c (readBasic state cs)
      | some (state, none) => readBasic state cs
      | none => none
    | .code left value =>
      match codeStep left value c with
      | some (state, some c) => prepend c (readBasic state cs)
      | some (state, none) => readBasic state cs
      | none => none
    | _ =>
      if c = '\x22' then some ([], cs)
      else if c = '\\' then readBasic .backslash cs
      else if isPlain c then prepend c (readBasic .plain cs)
      else none

/-- Whether a character may stand in a string of several lines, given the next one: a carriage
return only before a line feed. -/
def isPlainOrBreak (c : Char) (next : List Char) : Bool :=
  isPlain c || c = '\n' || (c = '\r' && next.head? = some '\n')

def isInlineBlank (c : Char) : Bool :=
  c = ' ' || c = '\t'

/-- The text of a string between quotes on several lines. -/
def readLongBasic (state : EscapeState) : List Char → Option (List Char × List Char)
  | [] => none
  | c :: cs =>
    match state with
    | .backslash =>
      if isInlineBlank c || c = '\r' then
        if c = '\r' && cs.head? != some '\n' then none else readLongBasic (.gap false) cs
      else if c = '\n' then readLongBasic (.gap true) cs
      else
        match backslashStep c with
        | some (state, some c) => prepend c (readLongBasic state cs)
        | some (state, none) => readLongBasic state cs
        | none => none
    | .code left value =>
      match codeStep left value c with
      | some (state, some c) => prepend c (readLongBasic state cs)
      | some (state, none) => readLongBasic state cs
      | none => none
    | .gap false =>
      if isInlineBlank c then readLongBasic (.gap false) cs
      else if c = '\n' then readLongBasic (.gap true) cs
      else if c = '\r' && cs.head? = some '\n' then readLongBasic (.gap false) cs
      else none
    | state =>
      if state = .gap true && (isInlineBlank c || c = '\n') then readLongBasic (.gap true) cs
      else if state = .gap true && c = '\r' && cs.head? = some '\n' then
        readLongBasic (.gap true) cs
      else if c = '\x22' && cs.take 2 = ['\x22', '\x22'] then some (closeLong '\x22' (cs.drop 2))
      else if c = '\\' then readLongBasic .backslash cs
      else if isPlainOrBreak c cs then prepend c (readLongBasic .plain cs)
      else none

def readLiteral : List Char → Option (List Char × List Char)
  | [] => none
  | c :: cs =>
    if c = '\x27' then some ([], cs)
    else if isPlain c then prepend c (readLiteral cs)
    else none

/-- The text of a string between apostrophes on several lines. -/
def readLongLiteral : List Char → Option (List Char × List Char)
  | [] => none
  | c :: cs =>
    if c = '\x27' && cs.take 2 = ['\x27', '\x27'] then some (closeLong '\x27' (cs.drop 2))
    else if isPlainOrBreak c cs then prepend c (readLongLiteral cs)
    else none

def afterBreak : List Char → List Char
  | '\n' :: cs => cs
  | '\r' :: '\n' :: cs => cs
  | cs => cs

def readShortString (cs : List Char) : Option (String × List Char) :=
  (match cs with
    | '\x22' :: cs => readBasic .plain cs
    | '\x27' :: cs => readLiteral cs
    | _ => none).map fun (text, rest) => (String.ofList text, rest)

/-- The text of a string; the characters begin with its mark. A line break directly after the
opening marks of a string of several lines does not count. -/
def readString (cs : List Char) : Option (String × List Char) :=
  match cs with
  | '\x22' :: '\x22' :: '\x22' :: cs =>
    (readLongBasic .plain (afterBreak cs)).map fun (text, rest) => (String.ofList text, rest)
  | '\x27' :: '\x27' :: '\x27' :: cs =>
    (readLongLiteral (afterBreak cs)).map fun (text, rest) => (String.ofList text, rest)
  | cs => readShortString cs

end Retarget.Toml
