/-!
# Blank characters

The characters that separate words and that trimming takes away are those of the Unicode property
`White_Space`.
-/

namespace Retarget.Text

def isBlank (c : Char) : Bool :=
  let n := c.toNat
  (0x9 ≤ n && n ≤ 0xD) || n == 0x20 || n == 0x85 || n == 0xA0 || n == 0x1680 ||
    (0x2000 ≤ n && n ≤ 0x200A) || n == 0x2028 || n == 0x2029 || n == 0x202F || n == 0x205F ||
    n == 0x3000

def dropTailWhile {α : Type} (p : α → Bool) (xs : List α) : List α :=
  (xs.reverse.dropWhile p).reverse

def trimChars (cs : List Char) : List Char :=
  dropTailWhile isBlank (cs.dropWhile isBlank)

def trimStart (text : String) : String :=
  String.ofList (text.toList.dropWhile isBlank)

def trimEnd (text : String) : String :=
  String.ofList (dropTailWhile isBlank text.toList)

def trim (text : String) : String :=
  String.ofList (trimChars text.toList)

def isBlankText (text : String) : Bool :=
  text.toList.all isBlank

/-- The maximal runs of characters that are not blank; `run` holds the current one, last first. -/
def wordsFrom (run : List Char) : List Char → List String
  | [] => if run.isEmpty then [] else [String.ofList run.reverse]
  | c :: cs =>
    if isBlank c then
      if run.isEmpty then wordsFrom [] cs else String.ofList run.reverse :: wordsFrom [] cs
    else wordsFrom (c :: run) cs

def words (text : String) : List String :=
  wordsFrom [] text.toList

end Retarget.Text
