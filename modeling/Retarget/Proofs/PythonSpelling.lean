import Retarget.Proofs.Writing

/-!
# How Python is spelled

The texts that the Python renderer writes are put together from the leaves of a program and from
texts of its own, of which there are few: those that stand alone, those that lead another text,
those that stand between two and those that end one.
-/

namespace Retarget.Python

open Text

variable {text : String}

def ownTexts : List String :=
  ["True", "False", "None", "0", "0.0", "'\\x00'", "\"\"", "\"true\"", "\"false\"", "2147483647",
    "-2147483648", "9223372036854775807", "-9223372036854775808", "0xFFFFFFFF",
    "0xFFFFFFFFFFFFFFFF", "end=\"\"", "[]", "abs()", "max()", "min()", "print()", "break",
    "continue", "pass", "raise SystemExit"]

def leads : List String :=
  ["(", "[", "-", "+", "~", "not ", "abs(", "bool(", "chr(", "float(", "int(", "len(", "max(",
    "min(", "ord(", "print(", "str("]

def joints : List String :=
  [", ", "[", "[-", " + ", " - ", " * ", " / ", " // ", " % ", " & ", " | ", " ^ ", " << ", " >> ",
    " >>> ", ") >> ", " < ", " <= ", " > ", " >= ", " == ", " != ", " and ", " or ", " if ",
    " else ", " = ", " = (", " += ", " -= ", " *= ", " /= ", " //= ", " %= ", " &= ", " |= ", " ^= ",
    " <<= ", " >>= ", " >>>= ", " in ", " in range(", " for _ in range(", "] * "]

def tails : List String :=
  [")", "]", ")]", ":]", ".copy()", ".lower()", ".strip()", ".upper()", " + 0.5", " + 1", " - 1",
    " += 1", " -= 1", ", end=\"\""]

def libraryFunctions : List String :=
  mathFunctions ++ ["floor", "ceil"]

def libraryTexts : List (String × Capability) :=
  [("math.pi", .math), ("math.e", .math), ("random.random()", .stdlib)] ++
    libraryFunctions.map fun function => ("math." ++ function ++ "()", .math)

/-- A text that is put together from admitted leaves and own texts while the given capabilities are
in use. -/
inductive Spelled (admits : Leaf → Prop) (caps : Caps) : String → Prop where
  | own {text : String} (known : text ∈ ownTexts) : Spelled admits caps text
  | name {name : String} (fine : admits (.name name)) : Spelled admits caps name
  | integer {digits : String} (fine : admits (.numeral digits)) :
      Spelled admits caps (integerText digits)
  | decimal {digits : String} (fine : admits (.numeral digits)) :
      Spelled admits caps (decimalText digits)
  | number (n : Int) : Spelled admits caps (toString n)
  | letter {body : String} (fine : admits (.letter body)) : Spelled admits caps ("'" ++ body ++ "'")
  | text {body : String} (fine : admits (.text body)) : Spelled admits caps (quoted body)
  | label {body : String} (fine : admits (.text body)) :
      Spelled admits caps (quoted (String.ofList (dropTailWhile (· = ' ') body.toList)))
  | lead {mark text : String} (known : mark ∈ leads) (spelled : Spelled admits caps text) :
      Spelled admits caps (mark ++ text)
  | joint {left mark right : String} (known : mark ∈ joints) (first : Spelled admits caps left)
      (second : Spelled admits caps right) : Spelled admits caps (left ++ mark ++ right)
  | tail {text mark : String} (known : mark ∈ tails) (spelled : Spelled admits caps text) :
      Spelled admits caps (text ++ mark)
  | slice {receiver start stop : String} (first : Spelled admits caps receiver)
      (second : Spelled admits caps start) (third : Spelled admits caps stop) :
      Spelled admits caps (receiver ++ "[" ++ start ++ ":" ++ stop ++ "]")
  | libraryText {text : String} {capability : Capability} (known : (text, capability) ∈ libraryTexts)
      (used : caps.contains capability = true) : Spelled admits caps text
  | libraryLead {function text : String} (known : function ∈ libraryFunctions)
      (used : caps.contains .math = true) (spelled : Spelled admits caps text) :
      Spelled admits caps ("math." ++ function ++ "(" ++ text)
  | bareValue {kind text value written : String} {shape : Degraded.Shape} {table : SymbolTable}
      (fine : admits (.source kind text)) (shaped : Degraded.shape? text = some shape)
      (known : value ∈ shape.values)
      (named : ∀ name ∈ Degraded.wordsIn value, admits (.name (table.targetName name)))
      (respelled : Degraded.respelled? (Degraded.spellInPython table) value = some written) :
      Spelled admits caps written
  | bareText {kind text body : String} {newline : Bool} (fine : admits (.source kind text))
      (shaped : Degraded.shape? text = some (.print body newline)) :
      Spelled admits caps (quoted body)

variable {admits : Leaf → Prop} {caps : Caps}

namespace Spelled

variable {left right text : String}

variable {function : String} {texts : List String}

theorem bracketed (spelled : Spelled admits caps text) : Spelled admits caps (bracketed text) :=
  .tail (by decide) (.lead (by decide) spelled)

theorem applied (known : function ++ "(" ∈ leads)
    (spelled : Spelled admits caps text) : Spelled admits caps (applied function text) := by
  have whole : Python.applied function text = function ++ "(" ++ text ++ ")" := by
    simp only [Python.applied, Text.bracketed, String.append_assoc]
  rw [whole]
  exact .tail (by decide) (.lead known spelled)

theorem libraryCall (known : function ∈ libraryFunctions)
    (used : caps.contains .math = true) (spelled : Spelled admits caps text) :
    Spelled admits caps (Python.applied ("math." ++ function) text) := by
  have whole : Python.applied ("math." ++ function) text =
      "math." ++ function ++ "(" ++ text ++ ")" := by
    simp only [Python.applied, Text.bracketed, String.append_assoc]
  rw [whole]
  exact .tail (by decide) (.libraryLead known used spelled)

theorem spaced {before sign behind : String} (known : before ++ sign ++ behind ∈ joints)
    (first : Spelled admits caps left) (second : Spelled admits caps right) :
    Spelled admits caps (left ++ before ++ sign ++ behind ++ right) := by
  simpa only [String.append_assoc] using joint known first second

theorem ended {before sign behind : String} (known : before ++ sign ++ behind ∈ tails)
    (spelled : Spelled admits caps text) :
    Spelled admits caps (text ++ before ++ sign ++ behind) := by
  simpa only [String.append_assoc] using tail known spelled

theorem join {mark : String} (known : mark ∈ joints) {text : String} {rest : List String}
    (spelled : ∀ part ∈ text :: rest, Spelled admits caps part) :
    Spelled admits caps (Text.join mark (text :: rest)) :=
  Text.join_cons (fun _ => id) (fun _ _ => .joint known) spelled

theorem call (known : function ++ "(" ∈ leads)
    (knownEmpty : Python.applied function "" ∈ ownTexts)
    (spelled : ∀ text ∈ texts, Spelled admits caps text) :
    Spelled admits caps (Python.applied function (Text.join ", " texts)) := by
  cases texts with
  | nil => exact .own knownEmpty
  | cons text rest => exact (join (by decide) spelled).applied known

theorem libraryCalls (known : function ∈ libraryFunctions)
    (used : caps.contains .math = true)
    (spelled : ∀ text ∈ texts, Spelled admits caps text) :
    Spelled admits caps (Python.applied ("math." ++ function) (Text.join ", " texts)) := by
  cases texts with
  | nil =>
    have member : (Python.applied ("math." ++ function) "", .math) ∈ libraryTexts :=
      List.mem_append_right _ (List.mem_map.mpr ⟨function, known, rfl⟩)
    exact .libraryText member used
  | cons text rest => exact libraryCall known used (join (by decide) spelled)

theorem listed (spelled : ∀ text ∈ texts, Spelled admits caps text) :
    Spelled admits caps ("[" ++ Text.join ", " texts ++ "]") := by
  cases texts with
  | nil => exact .own (by decide)
  | cons text rest => exact .tail (by decide) (.lead (by decide) (join (by decide) spelled))

theorem delimit (e : Expr) (spelled : Spelled admits caps text) :
    Spelled admits caps (delimit e text) := by
  unfold Python.delimit
  split
  · exact spelled.bracketed
  · exact spelled

theorem numericForm (type : ValueType) (e : Expr) (spelled : Spelled admits caps text) :
    Spelled admits caps (numericForm type e text) := by
  unfold Python.numericForm
  split
  · exact spelled.applied (by decide)
  · exact spelled.delimit e

theorem lowered (spelled : Spelled admits caps text) :
    Spelled admits caps (Python.applied "str" text ++ ".lower()") :=
  .tail (by decide) (spelled.applied (by decide))

theorem booleanForm (e : Expr) (spelled : Spelled admits caps text) :
    Spelled admits caps (booleanForm e text) := by
  unfold Python.booleanForm
  split
  next value =>
    cases value with
    | true => exact .own (by decide)
    | false => exact .own (by decide)
  next => exact spelled.lowered

theorem stringForm (type : ValueType) (e : Expr) (spelled : Spelled admits caps text) :
    Spelled admits caps (stringForm type e text) := by
  unfold Python.stringForm
  split
  · exact spelled.delimit e
  · exact spelled.delimit e
  · exact spelled.booleanForm e
  · exact spelled.applied (by decide)

theorem concatenated (table : SymbolTable) (e : Expr) (spelled : Spelled admits caps text) :
    Spelled admits caps
      (if table.isConcatenation e then text else Python.stringForm (table.typeOf e) e text) := by
  split
  · exact spelled
  · exact spelled.stringForm _ e

theorem comparedForm (mixed : Bool) (type : ValueType) (e : Expr)
    (spelled : Spelled admits caps text) : Spelled admits caps (comparedForm mixed type e text) := by
  unfold Python.comparedForm
  split
  · exact spelled.numericForm type e
  · exact spelled.delimit e

theorem mask (type : ValueType) : Spelled admits caps (mask type) := by
  unfold Python.mask
  split <;> exact .own (by decide)

theorem binaryText (op : BinaryOp) (type leftType : ValueType)
    (first : Spelled admits caps left) (second : Spelled admits caps right) :
    Spelled admits caps (binaryText op type leftType left right) := by
  unfold Python.binaryText
  split
  · split
    · exact .joint (by decide) first second
    · exact .joint (by decide) first second
  · exact .joint (by decide) (.joint (by decide) (.lead (by decide) first) (mask leftType)) second
  · have known : " " ++ op.symbol ++ " " ∈ joints := by cases op <;> decide
    exact spaced known first second

theorem literalText {value : Literal} (clean : ∀ leaf ∈ value.leaves, admits leaf) :
    Spelled admits caps (literalText value) := by
  cases value with
  | int digits => exact .integer (clean _ List.mem_cons_self)
  | long digits => exact .integer (clean _ List.mem_cons_self)
  | float digits => exact .decimal (clean _ List.mem_cons_self)
  | double digits => exact .decimal (clean _ List.mem_cons_self)
  | bool value =>
    cases value with
    | true => exact .own (by decide)
    | false => exact .own (by decide)
  | char body => exact .letter (clean _ List.mem_cons_self)
  | string body => exact .text (clean _ List.mem_cons_self)
  | null => exact .own (by decide)

theorem defaultValue (type : ValueType) : Spelled admits caps (defaultValue type) := by
  cases type <;> exact .own (by decide)

end Spelled

/-- The inside of a formatted string: literal text and values that are written plainly. -/
inductive Formatted (admits : Leaf → Prop) (caps : Caps) : String → Prop where
  | nil : Formatted admits caps ""
  | literal {body rest : String} (fine : admits (.text body))
      (formatted : Formatted admits caps rest) :
      Formatted admits caps (formattedLiteral body ++ rest)
  | value {text rest : String} (spelled : Spelled admits caps text) (plain : isPlain text = true)
      (formatted : Formatted admits caps rest) :
      Formatted admits caps ("\x7b" ++ text ++ "\x7d" ++ rest)

def closedFormat (format : String) : String × String :=
  match beforeEnd? "\\n" format with
  | some stripped => (stripped, "")
  | none => (format, ", " ++ noNewline)

inductive Line (admits : Leaf → Prop) (caps : Caps) : String → Prop where
  | spelled {text : String} (spelled : Spelled admits caps text) : Line admits caps text
  | remark {text : String} (unbroken : '\n' ∉ text.toList) :
      Line admits caps (Render.commentText "#" text)
  | placeholder {stmt : Stmt} (clean : stmt.Over admits) :
      Line admits caps (Target.python.placeholder stmt.construct)
  | formatted {text : String} (formatted : Formatted admits caps text) (newline : Bool) :
      Line admits caps (applied "print" ("f" ++ quoted text ++ printEnd newline))
  | format {body format lineEnd : String} {args : List String} (fine : admits (.text body))
      (closed : closedFormat (convertFormat (!args.isEmpty) body) = (format, lineEnd))
      (spelled : ∀ arg ∈ args, Spelled admits caps arg) :
      Line admits caps (applied "print" (quoted format ++ formatArgs args ++ lineEnd))

end Retarget.Python
