/-!
# Text

Small questions about text that the rest of the library asks: how a text begins and ends, what it
contains, and how pieces of it are put together. All of them are stated on the list of characters.
-/

namespace Retarget.Text

def beginsWith (start text : String) : Bool :=
  start.toList.isPrefixOf text.toList

def endsIn (tail text : String) : Bool :=
  tail.toList.isSuffixOf text.toList

def after? : List Char → List Char → Option (List Char)
  | [], cs => some cs
  | _ :: _, [] => none
  | s :: start, c :: cs => if s = c then after? start cs else none

def afterStart? (start text : String) : Option String :=
  (after? start.toList text.toList).map String.ofList

def beforeEnd? (tail text : String) : Option String :=
  (after? tail.toList.reverse text.toList.reverse).map fun cs => String.ofList cs.reverse

def occurs (needle : List Char) : List Char → Bool
  | [] => needle.isEmpty
  | c :: cs => needle.isPrefixOf (c :: cs) || occurs needle cs

def contains (needle text : String) : Bool :=
  occurs needle.toList text.toList

/-- Capital letters of the ASCII range become small; all else stays. -/
def lower (text : String) : String :=
  String.ofList (text.toList.map Char.toLower)

def respell (mark : Char) (spelling text : String) : String :=
  String.ofList (text.toList.flatMap fun c => if c = mark then spelling.toList else [c])

def join (separator : String) (pieces : List String) : String :=
  String.intercalate separator pieces

def quoted (text : String) : String :=
  "\"" ++ text ++ "\""

def bracketed (text : String) : String :=
  "(" ++ text ++ ")"

end Retarget.Text
