import Retarget.Text.Basic

/-!
# Targets

The languages that programs are converted to.
-/

namespace Retarget

inductive Target where
  | c
  | python
  deriving DecidableEq, Inhabited

namespace Target

def all : List Target := [c, python]

def name : Target → String
  | c => "c"
  | python => "python"

def extension : Target → String
  | c => "c"
  | python => "py"

def commentMark : Target → String
  | c => "//"
  | python => "#"

def ofName? (name : String) : Option Target :=
  match Text.lower name with
  | "c" => some c
  | "python" | "py" => some python
  | _ => none

def unknownMessage (name : String) : String :=
  "unknown target language: " ++ name

/-- The names a variable may not have in a target: its keywords, and names that the output of a
program relies on. -/
def reserved : Target → List String
  | c =>
    ["auto", "bool", "break", "case", "char", "const", "continue", "default", "do", "double",
      "else", "enum", "extern", "false", "float", "for", "goto", "if", "inline", "int", "long",
      "main", "memcpy", "memset", "printf", "register", "restrict", "return", "short", "signed",
      "sizeof", "snprintf", "static", "strcmp", "strlen", "struct", "switch", "true", "typedef",
      "union", "unsigned", "void", "volatile", "while", "NULL"]
  | python =>
    ["False", "None", "True", "and", "as", "assert", "async", "await", "class", "def", "del",
      "elif", "except", "finally", "from", "global", "import", "in", "is", "lambda", "nonlocal",
      "not", "or", "pass", "raise", "try", "with", "yield", "abs", "chr", "float", "int", "len",
      "math", "max", "min", "ord", "print", "random", "range", "str"]

def placeholder (target : Target) (construct : String) : String :=
  target.commentMark ++ " unsupported: " ++ construct

/-- What is appended to a line that carries a comment of the same source line. -/
def trailingComment : Target → String → String
  | c, text => " // " ++ text
  | python, text => "  # " ++ text

end Target

end Retarget
