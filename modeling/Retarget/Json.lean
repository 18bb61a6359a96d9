import Retarget.Text.Basic

/-!
# JSON texts

The values that reports are made of, and their layout on several lines.
-/

namespace Retarget

/-- A JSON value without numbers and null. -/
inductive Json where
  | bool (value : Bool)
  | string (text : String)
  | list (items : List Json)
  | object (members : List (String × Json))

namespace Json

/-- The two hexadecimal digits of a number below 256. -/
def hexPair (n : Nat) : List Char :=
  [Nat.digitChar (n / 16), Nat.digitChar (n % 16)]

def escape (c : Char) : List Char :=
  match c with
  | '\x22' => ['\\', '\x22']
  | '\\' => ['\\', '\\']
  | '\n' => ['\\', 'n']
  | '\r' => ['\\', 'r']
  | '\t' => ['\\', 't']
  | '\x08' => ['\\', 'b']
  | '\x0c' => ['\\', 'f']
  | c => if c.toNat < 0x20 then ['\\', 'u', '0', '0'] ++ hexPair c.toNat else [c]

def quote (text : String) : String :=
  Text.quoted (String.ofList (text.toList.flatMap escape))

/-- Parts between brackets, each on a line of its own; nothing stands between them without
parts. -/
def bracketLines (opening closing margin : String) (parts : List String) : String :=
  if parts.isEmpty then opening ++ closing
  else
    opening ++ "\n" ++ Text.join ",\n" (parts.map fun part => margin ++ "  " ++ part) ++ "\n" ++
      margin ++ closing

mutual

/-- A value on several lines; all but the first begin with `margin`. -/
def pretty (margin : String) : Json → String
  | bool value => if value then "true" else "false"
  | string text => quote text
  | list items => bracketLines "[" "]" margin (prettyItems (margin ++ "  ") items)
  | object members => bracketLines "\x7b" "\x7d" margin (prettyMembers (margin ++ "  ") members)

def prettyItems (margin : String) : List Json → List String
  | [] => []
  | item :: rest => item.pretty margin :: prettyItems margin rest

def prettyMembers (margin : String) : List (String × Json) → List String
  | [] => []
  | (name, value) :: rest =>
    (quote name ++ ": " ++ value.pretty margin) :: prettyMembers margin rest

end

end Json

end Retarget
