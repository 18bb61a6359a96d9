/-!
# Quoted literals in text

A literal runs from its opening quote to the first such quote that no backslash escapes. A
backslash escapes one following character other than a line feed.
-/

namespace Retarget.Text

/-- The body of a literal whose opening quote was read, and what follows its closing quote.
`escaped` says that a backslash before escapes the next character. -/
def literalBody? (quote : Char) (escaped : Bool) : List Char → Option (List Char × List Char)
  | [] => none
  | c :: cs =>
    if !escaped && c = quote then some ([], cs)
    else if escaped && c = '\n' then none
    else (literalBody? quote (!escaped && c = '\\') cs).map fun (body, rest) => (c :: body, rest)

/-- The body of a literal between double quotes at the beginning, and what follows it. -/
def stringLiteral? : List Char → Option (List Char × List Char)
  | '"' :: cs => literalBody? '"' false cs
  | _ => none

def isStringLiteral (cs : List Char) : Bool :=
  (stringLiteral? cs).any fun (_, rest) => rest.isEmpty

/-- Whether the characters are one literal between single quotes, not empty, and nothing else. -/
def isCharLiteral : List Char → Bool
  | '\'' :: cs =>
    (literalBody? '\'' false cs).any fun (body, rest) => !body.isEmpty && rest.isEmpty
  | _ => false

end Retarget.Text
