import Retarget.Toml.Quoted
import Retarget.Toml.Scalar

/-!
# TOML documents

The table that a document describes. Readers take the characters to be read and give what they
found with the characters after it.
-/

namespace Retarget.Toml

abbrev Reader (α : Type) := List Char → Option (α × List Char)

def skipBlanks (cs : List Char) : List Char :=
  cs.dropWhile isInlineBlank

def lineBreak : List Char → Option (List Char)
  | [] => some []
  | '\n' :: cs => some cs
  | '\r' :: '\n' :: cs => some cs
  | _ => none

/-- The characters after the end of a line on which only blanks and a comment may still stand. -/
def lineEnd (cs : List Char) : Option (List Char) :=
  match skipBlanks cs with
  | '#' :: cs => lineBreak (cs.dropWhile isPlain)
  | cs => lineBreak cs

/-- The first characters that are no blanks, line breaks or comments; `inComment` inside of one. -/
def skipLines (inComment : Bool) : List Char → Option (List Char)
  | [] => some []
  | c :: cs =>
    if c = '\n' then skipLines false cs
    else if c = '\r' then if cs.head? = some '\n' then skipLines false cs else none
    else if inComment then if isPlain c then skipLines true cs else none
    else if isInlineBlank c then skipLines false cs
    else if c = '#' then skipLines true cs
    else some (c :: cs)

/-- The greatest number of names in a key, and of arrays and inline tables around a value. -/
def nestingLimit : Nat := 79

def isBareMark (c : Char) : Bool :=
  c.isAlphanum || c = '_' || c = '-'

def readName (cs : List Char) : Option (String × List Char) :=
  match readShortString cs with
  | some found => some found
  | none =>
    match cs.span isBareMark with
    | ([], _) => none
    | (name, rest) => some (String.ofList name, rest)

def readKey : Nat → Reader Key
  | 0, _ => none
  | limit + 1, cs => do
    let (name, rest) ← readName (skipBlanks cs)
    match skipBlanks rest with
    | '.' :: rest =>
      let (key, rest) ← readKey limit rest
      return (key.under name, rest)
    | rest => return ({ path := [], name }, rest)

def readPair (value : Reader Value) : Reader (Key × Value) := fun cs => do
  let (key, rest) ← readKey nestingLimit cs
  match rest with
  | '=' :: rest =>
    let (value, rest) ← value (skipBlanks rest)
    return ((key, value), rest)
  | _ => none

/-- The items of an array up to its closing bracket, at most `bound` of them. -/
def readItems (value : Reader Value) : Nat → Reader (List Value)
  | 0, _ => none
  | bound + 1, cs => do
    match ← skipLines false cs with
    | ']' :: rest => return ([], rest)
    | start =>
      let (first, rest) ← value start
      match ← skipLines false rest with
      | ']' :: rest => return ([first], rest)
      | ',' :: rest =>
        let (others, rest) ← readItems value bound rest
        return (first :: others, rest)
      | _ => none

/-- The pairs of an inline table up to its closing brace, at least one and at most `bound`. -/
def readPairs (value : Reader Value) : Nat → Reader (List (Key × Value))
  | 0, _ => none
  | bound + 1, cs => do
    let (first, rest) ← readPair value cs
    match skipBlanks rest with
    | '\x7d' :: rest => return ([first], rest)
    | ',' :: rest =>
      let (others, rest) ← readPairs value bound rest
      return (first :: others, rest)
    | _ => none

def readInline (value : Reader Value) : Reader Value := fun cs => do
  let (pairs, rest) ← match skipBlanks cs with
    | '\x7d' :: rest => some ([], rest)
    | _ => readPairs value cs.length cs
  let table ← Table.insertAll [] pairs
  return (.table .inline table, rest)

def readScalar (cs : List Char) : Option (Value × List Char) :=
  if cs.head? = some '\x22' || cs.head? = some '\x27' then
    (readString cs).map fun (text, rest) => (.string text, rest)
  else readWord cs

/-- A value with at most `depth` arrays and inline tables nested. -/
def readValue : Nat → Reader Value
  | depth + 1, '[' :: cs =>
    (readItems (readValue depth) (cs.length + 1) cs).map fun (items, rest) => (.array items, rest)
  | depth + 1, '\x7b' :: cs => readInline (readValue depth) cs
  | _, cs => readScalar cs

inductive Line where
  | nothing
  | header (key : Key) (repeated : Bool)
  | entry (key : Key) (value : Value)

def readHeader (cs : List Char) : Option (Line × List Char) := do
  let (key, rest) ← readKey nestingLimit cs
  match rest with
  | ']' :: rest => return (.header key false, ← lineEnd rest)
  | _ => none

/-- A header in double brackets, after the opening ones. -/
def readRepeatedHeader (cs : List Char) : Option (Line × List Char) := do
  let (key, rest) ← readKey nestingLimit cs
  match rest with
  | ']' :: ']' :: rest => return (.header key true, ← lineEnd rest)
  | _ => none

def readEntry (cs : List Char) : Option (Line × List Char) := do
  let ((key, value), rest) ← readPair (readValue nestingLimit) cs
  return (.entry key value, ← lineEnd rest)

def readLine (cs : List Char) : Option (Line × List Char) :=
  match skipBlanks cs with
  | '[' :: '[' :: cs => readRepeatedHeader cs
  | '[' :: cs => readHeader cs
  | cs =>
    match lineEnd cs with
    | some rest => some (.nothing, rest)
    | none => readEntry cs

def readLines : Nat → List Char → Option (List Line)
  | _, [] => some []
  | 0, _ => none
  | bound + 1, cs => do
    let (line, rest) ← readLine cs
    let lines ← readLines bound rest
    return line :: lines

def sections : List Line → List (Key × Value) × List Section
  | [] => ([], [])
  | .nothing :: rest => sections rest
  | .entry key value :: rest =>
    let (entries, later) := sections rest
    ((key, value) :: entries, later)
  | .header key repeated :: rest =>
    let (entries, later) := sections rest
    ([], { key, repeated, entries } :: later)

def withoutMark : List Char → List Char
  | '\ufeff' :: cs => cs
  | cs => cs

def parse? (text : String) : Option Table := do
  let cs := withoutMark text.toList
  let lines ← readLines cs.length cs
  let (entries, later) := sections lines
  let root ← Table.insertAll [] entries
  root.ofSections later

end Retarget.Toml
