import Retarget.Render.CExpr

/-!
# C prints

A print becomes one `printf`. The literal pieces of what is printed make up the format string, and
every other piece adds the conversion of its type and one argument.
-/

namespace Retarget.C

open Text

def printArgs (args : List String) : String :=
  String.join (args.map (", " ++ ·))

/-- A format string with the arguments that its conversions take. -/
structure Format where
  text : String
  args : List String
  deriving DecidableEq, Inhabited

def formatValue (part : Expr) : Attempt Format := do
  let type := (← Render.symbols).typeOf part
  let arg ← expr part
  if type = .unknown then
    Render.warn ("type of print argument `" ++ arg ++ "` is unknown; printed with %d")
  return ⟨formatSpecifier type, [arg]⟩

def formatParts : List Expr → Attempt Format
  | [] => return ⟨"", []⟩
  | part :: rest => do
    let first ← match part.stringBody? with
      | some body => pure ⟨respell '%' "%%" body, []⟩
      | none => formatValue part
    let others ← formatParts rest
    return ⟨first.text ++ others.text, first.args ++ others.args⟩

def endsFlags (c : Char) : Bool :=
  c.isAlpha || c = '%'

/-- The C form of a conversion with the given flags, for an argument of the given type, and
whether it takes that argument. -/
def convertSpec (spec : List Char) (type : ValueType) (conversion : Char) : List Char × Bool :=
  match conversion with
  | 'n' => (['\\', 'n'], false)
  | '%' => (['%', '%'], false)
  | 'd' => (spec ++ (if type = .long then ['l', 'l', 'd'] else ['d']), true)
  | 'b' | 'B' => (spec ++ ['d'], true)
  | 's' | 'S' =>
    if type ≠ .string && type ≠ .unknown then (spec ++ (conversionLetters type).toList, true)
    else (spec ++ [conversion], true)
  | other => (spec ++ [other], true)

/-- The C form of a Java format string for arguments of the given types. `spec` holds the open
conversion with its flags in reverse; the grouping flag is dropped. -/
def convertFrom (spec : Option (List Char)) (types : List ValueType) : List Char → List Char
  | [] => (spec.getD []).reverse
  | c :: cs =>
    match spec with
    | none => if c = '%' then convertFrom (some ['%']) types cs else c :: convertFrom none types cs
    | some spec =>
      if endsFlags c then
        let (text, takesArgument) := convertSpec spec.reverse (types.headD .unknown) c
        text ++ convertFrom none (if takesArgument then types.tail else types) cs
      else if c = ',' then convertFrom (some spec) types cs
      else convertFrom (some (c :: spec)) types cs

def convertFormat (types : List ValueType) (format : String) : String :=
  String.ofList (convertFrom none types format.toList)

def printfCall (format : Format) : String :=
  "printf(" ++ quoted format.text ++ printArgs format.args ++ ");"

/-- A formatted print: the format string is kept, with the conversions that only Java has spelled
anew. -/
def formattedPrint : List Expr → Attempt String
  | [] => Attempt.invalid "printf" "missing format string"
  | first :: rest =>
    match first.stringBody? with
    | none => Attempt.unsupported "printf with a computed format"
    | some body => do
      let types := (← Render.symbols).typesOf rest
      let args ← exprs rest
      return printfCall ⟨convertFormat types body, args⟩

def print (p : Print) : Attempt String := do
  if p.formatted then formattedPrint p.args
  else
    let table ← Render.symbols
    let format ← formatParts (p.args.flatMap table.concatParts)
    return printfCall ⟨format.text ++ (if p.newline then "\\n" else ""), format.args⟩

end Retarget.C
