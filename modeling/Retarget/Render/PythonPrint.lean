import Retarget.Render.PythonExpr

/-!
# Python prints

A print of a concatenation takes one of three forms: a label and a value as two arguments, where
the space between them ends the label; a formatted string, for few enough pieces; or an explicit
sum of strings.
-/

namespace Retarget.Python

open Text

def maxFormattedValues : Nat := 3

/-- The most pieces, literals and values, in one formatted string. -/
def maxFormattedParts : Nat := 5

/-- The argument that keeps a print from ending its line. -/
def noNewline : String := "end=\"\""

def printEnd (newline : Bool) : String :=
  if newline then "" else ", " ++ noNewline

/-- A label and a value as two arguments, if the parts are a literal that ends in a space and a
value. -/
def labelAndValue : List Expr → Attempt (Option String)
  | [label, value] => do
    match label.stringBody? with
    | none => return none
    | some body =>
      if value.stringBody?.isSome || !endsIn " " body then return none
      else
        let text ← printedValue value
        let trimmed := String.ofList (dropTailWhile (· = ' ') body.toList)
        return some (quoted trimmed ++ ", " ++ text)
  | _ => return none

def formattedLiteral (body : String) : String :=
  respell '\x7d' "\x7d\x7d" (respell '\x7b' "\x7b\x7b" body)

def isPlain (text : String) : Bool :=
  !text.toList.any fun c => c = '"' || c = '\\'

def formattedPieces : List Expr → Attempt (Option String)
  | [] => return some ""
  | part :: rest => do
    match part.stringBody? with
    | some body => return (← formattedPieces rest).map (formattedLiteral body ++ ·)
    | none =>
      let text ← expr part
      let text := if (← Render.symbols).typeOf part = .boolean then
          applied "str" text ++ ".lower()"
        else text
      if isPlain text then
        return (← formattedPieces rest).map (("\x7b" ++ text ++ "\x7d") ++ ·)
      else return none

def formattedString (parts : List Expr) : Attempt (Option String) := do
  let values := parts.countP fun part => part.stringBody?.isNone
  if maxFormattedValues < values || maxFormattedParts < parts.length then return none
  else return (← formattedPieces parts).map fun text => "f" ++ quoted text

def concatenatedArgs (parts : List Expr) : Attempt String := do
  match ← labelAndValue parts with
  | some args => return args
  | none =>
    match ← formattedString parts with
    | some text => return text
    | none => concatenation parts

def convertSpec (hasArgs : Bool) (spec : List Char) (conversion : Char) : List Char :=
  match conversion with
  | 'n' => ['\\', 'n']
  | '%' => if hasArgs then ['%', '%'] else ['%']
  | 'b' | 'B' | 'S' => spec ++ ['s']
  | other => spec ++ [other]

/-- The Python form of a Java format string. `spec` holds the open conversion with its flags in
reverse; the grouping flag is dropped. -/
def convertFrom (hasArgs : Bool) (spec : Option (List Char)) : List Char → List Char
  | [] => (spec.getD []).reverse
  | c :: cs =>
    match spec with
    | none =>
      if c = '%' then convertFrom hasArgs (some ['%']) cs else c :: convertFrom hasArgs none cs
    | some spec =>
      if c.isAlpha || c = '%' then
        convertSpec hasArgs spec.reverse c ++ convertFrom hasArgs none cs
      else if c = ',' then convertFrom hasArgs (some spec) cs
      else convertFrom hasArgs (some (c :: spec)) cs

/-- Whether a conversion of a format string has a grouping flag; `inSpec` says that the flags of a
conversion are being read. -/
def hasGrouping (inSpec : Bool) : List Char → Bool
  | [] => false
  | c :: cs =>
    if inSpec then
      if c.isAlpha || c = '%' then hasGrouping false cs else c = ',' || hasGrouping true cs
    else hasGrouping (c = '%') cs

/-- The Python form of a Java format string. Without arguments it is printed as it stands, so a
percent sign is written once. -/
def convertFormat (hasArgs : Bool) (format : String) : String :=
  String.ofList (convertFrom hasArgs none format.toList)

def formatArgs : List String → String
  | [] => ""
  | [single] => " % " ++ single
  | many => " % " ++ bracketed (join ", " many)

def formattedPrint : List Expr → Attempt String
  | [] => Attempt.invalid "printf" "missing format string"
  | first :: rest =>
    match first.stringBody? with
    | none => Attempt.unsupported "printf with a computed format"
    | some body => do
      let args ← rest.mapM printedValue
      let format := convertFormat (!args.isEmpty) body
      if hasGrouping false body.toList then Render.warn "printf `,` grouping flag dropped"
      let (format, lineEnd) := match beforeEnd? "\\n" format with
        | some stripped => (stripped, "")
        | none => (format, ", " ++ noNewline)
      return applied "print" (quoted format ++ formatArgs args ++ lineEnd)

def print (p : Print) : Attempt String := do
  if p.formatted then formattedPrint p.args
  else
    match p.args with
    | [] => return applied "print" (if p.newline then "" else noNewline)
    | [arg] =>
      let table ← Render.symbols
      let args ← if table.isConcatenation arg then concatenatedArgs (table.concatParts arg)
        else printedValue arg
      return applied "print" (args ++ printEnd p.newline)
    | _ => Attempt.invalid "print" "more than one argument"

end Retarget.Python
