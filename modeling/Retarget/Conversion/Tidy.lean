import Retarget.Text.Basic
import Retarget.Text.Blank
import Retarget.Text.Lines

/-!
# Blank lines of a program

A tidy program has no blank line at its beginning or end and no run of blank lines beyond a given
length. Its blank lines are empty, and its last line ends in a line feed.
-/

namespace Retarget.Text

/-- The lines with each run of blank ones cut down to `cap` empty ones; `run` is the number of
blank lines kept directly before. -/
def capBlanks (cap run : Nat) : List String → List String
  | [] => []
  | line :: rest =>
    if isBlankText line then
      if run < cap then "" :: capBlanks cap (run + 1) rest else capBlanks cap run rest
    else line :: capBlanks cap 0 rest

/-- The tidy lines: no blank ones at both ends, and runs of at most `cap` elsewhere. -/
def tidyLines (cap : Nat) (lines : List String) : List String :=
  dropTailWhile isBlankText (capBlanks cap 0 (lines.dropWhile isBlankText))

def tidy (cap : Nat) (code : String) : String :=
  join "\n" (tidyLines cap (lines code)) ++ "\n"

end Retarget.Text
