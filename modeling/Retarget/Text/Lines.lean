/-!
# Lines

A line ends at a line feed, and a carriage return directly before that line feed belongs to the
ending. What follows the last line feed is a line of its own unless it is empty, and there a
carriage return is an ordinary character.
-/

namespace Retarget.Text

def closeLine : List Char → String
  | [] => ""
  | c :: earlier => String.ofList (if c = '\r' then earlier.reverse else (c :: earlier).reverse)

/-- The lines of the characters that follow; `run` holds the open line, last character first. -/
def linesFrom (run : List Char) : List Char → List String
  | [] => if run.isEmpty then [] else [String.ofList run.reverse]
  | c :: cs => if c = '\n' then closeLine run :: linesFrom [] cs else linesFrom (c :: run) cs

def lines (text : String) : List String :=
  linesFrom [] text.toList

end Retarget.Text
