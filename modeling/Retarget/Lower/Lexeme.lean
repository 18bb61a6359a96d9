import Retarget.Program.Stmt
import Retarget.Text.Lines

/-!
# Lexemes

What the literals and comments of a Java text hold: numerals without separators and suffixes,
string and character bodies without quotes, text blocks as one line, comments without markers.
-/

namespace Retarget.Lexeme

open Text

def withoutLast (digits : List Char) : String :=
  String.ofList digits.dropLast

def floatingLiteral (digits : List Char) : Literal :=
  match digits.getLast? with
  | some c =>
    if c = 'f' || c = 'F' then .float (withoutLast digits)
    else if c = 'd' || c = 'D' then .double (withoutLast digits)
    else .double (String.ofList digits)
  | none => .double ""

def integerLiteral (digits : List Char) : Literal :=
  let isHex := "0x".toList.isPrefixOf digits || "0X".toList.isPrefixOf digits
  match digits.getLast? with
  | some c =>
    if c = 'l' || c = 'L' then .long (withoutLast digits)
    else if (c = 'f' || c = 'F') && !isHex then .float (withoutLast digits)
    else if (c = 'd' || c = 'D') && !isHex then .double (withoutLast digits)
    else .int (String.ofList digits)
  | none => .int ""

/-- The literal of a numeral of the given kind of node, without digit separators. -/
def number (kind text : String) : Literal :=
  let digits := text.toList.filter (· ≠ '_')
  if contains "floating_point" kind then floatingLiteral digits else integerLiteral digits

def unquoted (quote text : String) : String :=
  let text := (afterStart? quote text).getD text
  (beforeEnd? quote text).getD text

def afterBytes? : Nat → List Char → Option (List Char)
  | 0, cs => some cs
  | _ + 1, [] => none
  | count + 1, c :: cs =>
    if c.utf8Size ≤ count + 1 then afterBytes? (count + 1 - c.utf8Size) cs else none

/-- The number of bytes that the blanks at the beginning take. -/
def marginOf (line : String) : Nat :=
  (line.toList.takeWhile isBlank).foldl (fun width c => width + c.utf8Size) 0

def commonMargin (lines : List String) : Nat :=
  (((lines.filter (!isBlankText ·)).map marginOf).min?).getD 0

def blockLine (margin : Nat) (line : String) : String :=
  trimEnd (String.ofList ((afterBytes? margin line.toList).getD []))

/-- The body of a text block as one line, from the text after its opening quotes. -/
def textBlock (text : String) : String :=
  let body := (beforeEnd? "\"\"\"" text).getD text
  let body := (afterStart? "\n" body).getD body
  let parts := lines body
  respell '"' "\\\"" (join "\\n" (parts.map (blockLine (commonMargin parts))))

def stringBody (text : String) : String :=
  match afterStart? "\"\"\"" text with
  | some rest => textBlock rest
  | none => unquoted "\"" text

/-- A line of a block comment without the blanks around it and a leading star. -/
def commentLine (line : String) : String :=
  let line := trim line
  match afterStart? "*" line with
  | some rest => trimStart rest
  | none => line

/-- The comment that a text holds. A block comment loses the empty lines at both ends. -/
def comment (text : String) : Comment :=
  match afterStart? "//" text with
  | some rest => { text := trim rest, isBlock := false }
  | none =>
    let inner := (afterStart? "/*" text).getD text
    let inner := (beforeEnd? "*/" inner).getD inner
    let parts := (lines inner).map commentLine
    let kept := dropTailWhile String.isEmpty (parts.dropWhile String.isEmpty)
    { text := join "\n" kept, isBlock := true }

end Retarget.Lexeme
