import Retarget.Proofs.Braces

/-!
# How C is spelled

The texts that the C renderer writes are put together from the leaves of a program and from texts of
its own: those that stand alone, those that lead another text, those that stand between two and
those that end one.
-/

namespace Retarget.C

open Text Braces

def ownTexts : List String :=
  ["", "0", "0.0", "'\\0'", "\"\"", "NULL", "signed char", "short", "int", "long long", "float",
    "double", "char", "char*", "\x7b", "\x7d", "\x7d else \x7b", "do \x7b", "default:", "break;",
    "continue;", "return 0;"]

def leads : List String :=
  ["(", "[", "\x7b", " ", "-", "+", "!", "~", "++", "--", "(unsigned int) ",
    "(unsigned long long) ", "(signed char) ", "(short) ", "(int) ", "(long long) ", "(float) ",
    "(double) ", "(char) ", "(char*) ", "sizeof(", "char ", "case ", "for (", "for (int ", "if (",
    "\x7d else if (", "switch (", "while (", "\x7d while (", "printf(", "snprintf("]

def joints : List String :=
  [" ", " *", " **", ", ", ";", "; ", "[", "] = ", " = ", " = 0; ", " = (unsigned int) ",
    " = (unsigned long long) ", ") / sizeof(", ", sizeof(", ", 0, sizeof(", "), ", " ? ", " : ",
    " + ", " - ", " * ", " / ", " % ", " & ", " | ", " ^ ", " << ", " >> ", " >>> ", " < ", " <= ",
    " > ", " >= ", " == ", " != ", " && ", " || ", " += ", " -= ", " *= ", " /= ", " %= ", " &= ",
    " |= ", " ^= ", " <<= ", " >>= ", " >>>= "]

def tails : List String :=
  [")", "]", "\x7d", ";", ":", "++", "--", ");", "));", "];", "[0]", "[0])", ") == 0",
    ") != 0", ") == 0)", " \x7b", ") \x7b", "++) \x7b", " = \x7b0\x7d;", " = NULL;"]

def libraryTexts : List (String × Capability) :=
  [("bool", .bool), ("true", .bool), ("false", .bool), ("INT_MAX", .limits), ("INT_MIN", .limits),
    ("LLONG_MAX", .limits), ("LLONG_MIN", .limits), ("M_PI", .math), ("M_E", .math),
    ("((double) rand() / RAND_MAX)", .stdlib)]

def libraryFunctions : List (String × Capability) :=
  mathFunctions.map (·, .math) ++
    [("fmod", .math), ("fabs", .math), ("fmax", .math), ("fmin", .math), ("llround", .math),
      ("abs", .stdlib), ("llabs", .stdlib), ("atoi", .stdlib), ("atoll", .stdlib),
      ("atof", .stdlib), ("strlen", .string), ("strcmp", .string), ("memset", .string),
      ("memcpy", .string)]

def libraryLeads : List (String × Capability) :=
  libraryFunctions.map (fun (function, capability) => (function ++ "(", capability)) ++
    [("(bool) ", .bool), ("(strcmp(", .string)]

inductive Formatted (admits : Leaf → Prop) : String → Prop where
  | nil : Formatted admits ""
  | newline : Formatted admits "\\n"
  | specifier (type : ValueType) : Formatted admits (formatSpecifier type)
  | literal {body : String} (fine : admits (.text body)) : Formatted admits (respell '%' "%%" body)
  | converted {body : String} (types : List ValueType) (fine : admits (.text body)) :
      Formatted admits (convertFormat types body)
  | append {first second : String} (begins : Formatted admits first)
      (ends : Formatted admits second) : Formatted admits (first ++ second)

/-- A text that is put together from admitted leaves and own texts while the given capabilities are
in use. -/
inductive Spelled (admits : Leaf → Prop) (caps : Caps) : String → Prop where
  | own {text : String} (known : text ∈ ownTexts) : Spelled admits caps text
  | name {name : String} (fine : admits (.name name)) : Spelled admits caps name
  | measured {array : String} (fine : admits (.measured array)) : Spelled admits caps array
  | integer {digits : String} (fine : admits (.numeral digits)) :
      Spelled admits caps (integerText digits)
  | long {digits : String} (fine : admits (.numeral digits)) :
      Spelled admits caps (integerText digits ++ "LL")
  | decimal {digits : String} (fine : admits (.numeral digits)) :
      Spelled admits caps (decimalText digits)
  | float {digits : String} (fine : admits (.numeral digits)) :
      Spelled admits caps (decimalText digits ++ "f")
  | count (n : Nat) : Spelled admits caps (toString n)
  | letter {body : String} (fine : admits (.letter body)) : Spelled admits caps ("'" ++ body ++ "'")
  | text {body : String} (fine : admits (.text body)) : Spelled admits caps (quoted body)
  | format {text : String} (formatted : Formatted admits text) : Spelled admits caps (quoted text)
  | lead {mark text : String} (known : mark ∈ leads) (spelled : Spelled admits caps text) :
      Spelled admits caps (mark ++ text)
  | joint {left mark right : String} (known : mark ∈ joints) (first : Spelled admits caps left)
      (second : Spelled admits caps right) : Spelled admits caps (left ++ mark ++ right)
  | tail {text mark : String} (known : mark ∈ tails) (spelled : Spelled admits caps text) :
      Spelled admits caps (text ++ mark)
  | extent {array index : String} (first : Spelled admits caps array)
      (second : Spelled admits caps index) : Spelled admits caps (array ++ ("[" ++ index ++ "]"))
  | libraryText {text : String} {capability : Capability} (known : (text, capability) ∈ libraryTexts)
      (used : caps.contains capability = true) : Spelled admits caps text
  | libraryLead {mark text : String} {capability : Capability}
      (known : (mark, capability) ∈ libraryLeads) (used : caps.contains capability = true)
      (spelled : Spelled admits caps text) : Spelled admits caps (mark ++ text)

variable {admits : Leaf → Prop} {caps : Caps}

namespace Spelled

variable {text : String}

theorem items (spelled : Spelled admits caps text) (level : Nat) :
    Spelled admits caps (text ++ String.join (List.replicate level "[0]")) := by
  refine Text.append_join (fun text item member spelled => ?_) spelled
  rw [List.eq_of_mem_replicate member]
  exact .tail (by decide) spelled

end Spelled

/-- A diction, and whether braces are told of. They are where no admitted leaf can be taken for
one. -/
structure Manner extends Diction where
  tidy : Prop
  braceless : tidy → ∀ {leaf : Leaf}, admits leaf → Braces.Admits leaf

def Manner.of (diction : Diction) : Manner where
  toDiction := diction
  tidy := False
  braceless := False.elim

/-- A text of a list that no closing brace comes first in. -/
def Known (marks : List String) (mark : String) : Prop :=
  mark ∈ marks ∧ Clear mark

instance decidableKnown (marks : List String) (mark : String) : Decidable (Known marks mark) :=
  inferInstanceAs (Decidable (_ ∧ _))

/-- A spelled text that no closing brace comes first in. -/
structure Tidy (manner : Manner) (caps : Caps) (text : String) : Prop where
  spelled : Spelled manner.admits caps text
  clear : manner.tidy → Clear text

variable {manner : Manner}

theorem clear_integerText {digits : String} (clear : Clear digits) :
    Clear (integerText digits) := by
  unfold integerText
  split
  · split
    · exact clear_toString_int _
    · exact clear
  · exact clear

theorem clear_decimalText {digits : String} (clear : Clear digits) :
    Clear (decimalText digits) := by
  have before (point : Bool) : Clear (if point then "0" else "") := by cases point <;> decide
  have behind (whole point : Bool) :
      Clear (if !whole then ".0" else if point then "0" else "") := by
    cases whole <;> cases point <;> decide
  unfold decimalText
  dsimp only
  split
  · exact clear
  · exact ((before _).append clear).append (behind _ _)

namespace Tidy

variable {left right text mark body digits : String} {capability : Capability}

theorem own (known : Known ownTexts text) : Tidy manner caps text :=
  ⟨.own known.1, fun _ => known.2⟩

theorem name (fine : manner.admits (.name text)) : Tidy manner caps text :=
  ⟨.name fine, fun tidy => manner.braceless tidy fine⟩

theorem integer (fine : manner.admits (.numeral digits)) : Tidy manner caps (integerText digits) :=
  ⟨.integer fine, fun tidy => clear_integerText (manner.braceless tidy fine)⟩

theorem long (fine : manner.admits (.numeral digits)) :
    Tidy manner caps (integerText digits ++ "LL") :=
  ⟨.long fine, fun tidy => (clear_integerText (manner.braceless tidy fine)).append (by decide)⟩

theorem decimal (fine : manner.admits (.numeral digits)) : Tidy manner caps (decimalText digits) :=
  ⟨.decimal fine, fun tidy => clear_decimalText (manner.braceless tidy fine)⟩

theorem float (fine : manner.admits (.numeral digits)) :
    Tidy manner caps (decimalText digits ++ "f") :=
  ⟨.float fine, fun tidy => (clear_decimalText (manner.braceless tidy fine)).append (by decide)⟩

theorem count (n : Nat) : Tidy manner caps (toString n) :=
  ⟨.count n, fun _ => clear_toString n⟩

theorem headed (heads : Heads false mark) (spelled : Spelled manner.admits caps (mark ++ text)) :
    Tidy manner caps (mark ++ text) :=
  ⟨spelled, fun _ => (heads.append text).clear⟩

theorem letter (fine : manner.admits (.letter body)) : Tidy manner caps ("'" ++ body ++ "'") := by
  have heads : Heads false "'" := by decide
  exact .headed (heads.append body) (.letter fine)

theorem quote (spelled : Spelled manner.admits caps (quoted text)) :
    Tidy manner caps (quoted text) := by
  have heads : Heads false "\"" := by decide
  exact .headed (heads.append text) spelled

theorem lead (known : Known leads mark) (worded : Tidy manner caps text) :
    Tidy manner caps (mark ++ text) :=
  ⟨.lead known.1 worded.spelled, fun tidy => known.2.append (worded.clear tidy)⟩

theorem joint (known : Known joints mark) (first : Tidy manner caps left)
    (second : Tidy manner caps right) : Tidy manner caps (left ++ mark ++ right) :=
  ⟨.joint known.1 first.spelled second.spelled,
    fun tidy => ((first.clear tidy).append known.2).append (second.clear tidy)⟩

theorem tail (known : Known tails mark) (worded : Tidy manner caps text) :
    Tidy manner caps (text ++ mark) :=
  ⟨.tail known.1 worded.spelled, fun tidy => (worded.clear tidy).append known.2⟩

theorem extent (first : Tidy manner caps left) (second : Tidy manner caps right) :
    Tidy manner caps (left ++ ("[" ++ right ++ "]")) := by
  have heads : Heads false "[" := by decide
  exact ⟨.extent first.spelled second.spelled, fun tidy =>
    (first.clear tidy).append ((heads.append right).append "]").clear⟩

theorem libraryText (known : (text, capability) ∈ libraryTexts)
    (used : caps.contains capability = true) : Tidy manner caps text := by
  have all : ∀ entry ∈ libraryTexts, Clear entry.1 := by decide
  exact ⟨.libraryText known used, fun _ => all (text, capability) known⟩

theorem libraryLead (known : (mark, capability) ∈ libraryLeads)
    (used : caps.contains capability = true) (worded : Tidy manner caps text) :
    Tidy manner caps (mark ++ text) := by
  have all : ∀ entry ∈ libraryLeads, Heads false entry.1 := by decide
  exact .headed (all _ known) (.libraryLead known used worded.spelled)

/-- The closing brace of an array literal stands behind the opening one. -/
theorem braced (worded : Tidy manner caps text) : Tidy manner caps ("\x7b" ++ text ++ "\x7d") := by
  have heads : Heads false "\x7b" := by decide
  exact .headed (heads.append text) (.tail (by decide) (.lead (by decide) worded.spelled))

theorem bracketed (worded : Tidy manner caps text) : Tidy manner caps (bracketed text) :=
  .tail (by decide) (.lead (by decide) worded)

theorem delimit (e : Expr) (worded : Tidy manner caps text) :
    Tidy manner caps (delimit e text) := by
  unfold C.delimit
  split
  · exact worded.bracketed
  · exact worded

theorem spaced {before sign behind : String}
    (known : Known joints (before ++ sign ++ behind))
    (first : Tidy manner caps left) (second : Tidy manner caps right) :
    Tidy manner caps (left ++ before ++ sign ++ behind ++ right) := by
  simpa only [String.append_assoc] using joint known first second

theorem join (known : Known joints mark) {texts : List String}
    (worded : ∀ text ∈ texts, Tidy manner caps text) :
    Tidy manner caps (Text.join mark texts) := by
  cases texts with
  | nil =>
    have known : Known ownTexts "" := by decide
    exact .own known
  | cons text rest => exact Text.join_cons (fun _ => id) (fun _ _ => .joint known) worded

theorem call {function args : String} (known : (function, capability) ∈ libraryFunctions)
    (used : caps.contains capability = true) (worded : Tidy manner caps args) :
    Tidy manner caps (function ++ Text.bracketed args) := by
  have whole : function ++ Text.bracketed args = function ++ "(" ++ args ++ ")" := by
    simp only [Text.bracketed, String.append_assoc]
  have listed : (function ++ "(", capability) ∈ libraryLeads :=
    List.mem_append_left _ (List.mem_map.mpr ⟨_, known, rfl⟩)
  rw [whole]
  exact .tail (by decide) (.libraryLead listed used worded)

theorem sizeQuotient (spelled : Spelled manner.admits caps text) :
    Tidy manner caps (sizeQuotient text) := by
  have heads : Heads false "sizeof(" := by decide
  exact .headed (((heads.append text).append _).append text)
    (.tail (by decide) (.joint (by decide) (.lead (by decide) spelled) spelled))

theorem selectText {sign : String} (known : Known joints (" " ++ sign ++ " "))
    (first : Tidy manner caps left) (second : Tidy manner caps right) :
    Tidy manner caps (selectText sign left right) :=
  .bracketed (.joint (by decide) (.joint (by decide) (.spaced known first second) first) second)

theorem extents (worded : Tidy manner caps text) {extents : List String}
    (inside : ∀ extent ∈ extents, Tidy manner caps extent) :
    Tidy manner caps (text ++ extentText extents) := by
  refine Text.append_join (fun text item member worded => ?_) worded
  obtain ⟨extent, found, rfl⟩ := List.mem_map.mp member
  exact .extent worded (inside extent found)

theorem arguments (worded : Tidy manner caps text) {args : List String}
    (inside : ∀ arg ∈ args, Tidy manner caps arg) :
    Tidy manner caps (text ++ printArgs args) := by
  refine Text.append_join (fun text item member worded => ?_) worded
  obtain ⟨arg, found, rfl⟩ := List.mem_map.mp member
  rw [← String.append_assoc]
  exact .joint (by decide) worded (inside arg found)

end Tidy

def typeNames : List (ValueType × String) :=
  [(.byte, "signed char"), (.short, "short"), (.int, "int"), (.long, "long long"),
    (.float, "float"), (.double, "double"), (.char, "char"), (.string, "char*")]

def NamesType (caps : Caps) (type : ValueType) (written : String) : Prop :=
  (type, written) ∈ typeNames ∨ (type = .boolean ∧ written = "bool" ∧ caps.contains .bool = true)

namespace NamesType

variable {type : ValueType} {written : String}

theorem worded (names : NamesType caps type written) : Tidy manner caps written := by
  rcases names with known | ⟨-, rfl, used⟩
  · have all : ∀ entry ∈ typeNames, Known ownTexts entry.2 := by decide
    exact .own (all _ known)
  · exact .libraryText (by decide) used

theorem heads (names : NamesType caps type written) : Heads false written := by
  rcases names with known | ⟨-, rfl, -⟩
  · have all : ∀ entry ∈ typeNames, Heads false entry.2 := by decide
    exact all (type, written) known
  · decide

theorem unique {other : String} (names : NamesType caps type written)
    (namesToo : NamesType caps type other) : written = other := by
  have all : ∀ entry ∈ typeNames, entry.1 ≠ .boolean ∧
      ∀ second ∈ typeNames, entry.1 = second.1 → entry.2 = second.2 := by decide
  rcases names with known | ⟨isBoolean, rfl, -⟩
  · rcases namesToo with knownToo | ⟨isBoolean, -, -⟩
    · exact (all _ known).2 _ knownToo rfl
    · exact absurd isBoolean (all _ known).1
  · rcases namesToo with knownToo | ⟨-, rfl, -⟩
    · exact absurd isBoolean (all _ knownToo).1
    · rfl

theorem cast {text : String} (names : NamesType caps type written)
    (worded : Tidy manner caps text) : Tidy manner caps ("(" ++ written ++ ") " ++ text) := by
  rcases names with known | ⟨-, rfl, used⟩
  · have all : ∀ entry ∈ typeNames, Known leads ("(" ++ entry.2 ++ ") ") := by decide
    exact .lead (all _ known) worded
  · exact .libraryLead (by decide) used worded

theorem pointer {name : String} (names : NamesType caps type written)
    (worded : Tidy manner caps name) : Tidy manner caps (pointerDeclarator written name) := by
  have first : Tidy manner caps written := names.worded
  unfold pointerDeclarator
  split
  next base found =>
    have all : ∀ entry ∈ typeNames, ∀ base ∈ beforeEnd? "*" entry.2, Known ownTexts base := by
      decide
    rcases names with known | ⟨-, rfl, -⟩
    · exact .joint (by decide) (.own (all _ known base found)) worded
    · have none : beforeEnd? "*" "bool" = none := by decide
      cases found
  next => exact .joint (by decide) first worded

theorem defaultValue (names : NamesType caps type written) :
    Tidy manner caps (defaultValue type) := by
  cases type with
  | boolean =>
    rcases names with known | ⟨-, -, used⟩
    · simp [typeNames] at known
    · exact .libraryText (by decide) used
  | _ => exact .own (by decide)

end NamesType

inductive Line (admits : Leaf → Prop) (caps : Caps) : String → Prop where
  | spelled {text : String} (spelled : Spelled admits caps text) : Line admits caps text
  | blankRemark : Line admits caps "//"
  | remark {comment : Comment} {text : String} (fine : admits (.remark comment))
      (isLine : comment.isBlock = false) (part : text ∈ lines comment.text) :
      Line admits caps (Render.commentText "//" text)
  | shortRemark {comment : Comment} {text : String} (fine : admits (.remark comment))
      (isBlock : comment.isBlock = true) (single : lines comment.text = [text]) :
      Line admits caps ("/* " ++ text ++ " */")
  | placeholder {stmt : Stmt} (clean : stmt.Over admits) :
      Line admits caps (Target.c.placeholder stmt.construct)
  /-- A line that is written for a bare text, which may be anything. -/
  | bare {kind source text : String} (fine : admits (.source kind source)) : Line admits caps text

/-- The rows of single lines and of comments that take several. -/
inductive Listing (admits : Leaf → Prop) (caps : Caps) : List Row → Prop where
  | nil : Listing admits caps []
  | line {depth : Nat} {text : String} {rest : List Row} (line : Line admits caps text)
      (listing : Listing admits caps rest) : Listing admits caps ({ depth, text } :: rest)
  | remark {comment : Comment} {depth : Nat} {rest : List Row} (fine : admits (.remark comment))
      (isBlock : comment.isBlock = true) (listing : Listing admits caps rest) :
      Listing admits caps ({ depth, text := "/*" } ::
        ((lines comment.text).map fun part => { depth, text := Render.commentText " *" part }) ++
        { depth, text := " */" } :: rest)

namespace Listing

variable {rows more : List Row}

theorem append (listing : Listing admits caps rows) (listingToo : Listing admits caps more) :
    Listing admits caps (rows ++ more) := by
  induction listing with
  | nil => exact listingToo
  | line line _ ih => exact .line line ih
  | remark fine isBlock _ ih =>
    rw [List.append_assoc, List.cons_append]
    exact .remark fine isBlock ih

end Listing

/-- The text of a line that neither opens nor closes a block. -/
structure Sentence (manner : Manner) (caps : Caps) (text : String) : Prop where
  worded : Tidy manner caps text
  ends : EndsLine false text

/-- A text that begins at the margin, and whether a closing brace comes first in it. -/
structure Headed (manner : Manner) (closing : Bool) (caps : Caps) (text : String) :
    Prop where
  spelled : Spelled manner.admits caps text
  heads : Heads closing text

structure Marked (manner : Manner) (closing opening : Bool) (caps : Caps)
    (text : String) : Prop extends Headed manner closing caps text where
  ends : EndsLine opening text

/-- Rows that lead from the blocks open at some levels to others. -/
structure Laid (manner : Manner) (before after : List Nat) (caps : Caps)
    (rows : List Row) : Prop where
  listing : Listing manner.admits caps rows
  nests : manner.tidy → Nests before after rows

section Lines

variable {closing opening : Bool} {mark text left right : String}

theorem Sentence.own (known : Known ownTexts text ∧ EndsLine false text) : Sentence manner caps text :=
  ⟨.own known.1, known.2⟩

theorem Sentence.tail (known : Known tails mark ∧ EndsLine false mark)
    (worded : Tidy manner caps text) : Sentence manner caps (text ++ mark) :=
  ⟨.tail known.1 worded, known.2.append text⟩

theorem Headed.lead (known : mark ∈ leads ∧ Heads closing mark) (worded : Tidy manner caps text) :
    Headed manner closing caps (mark ++ text) :=
  ⟨.lead known.1 worded.spelled, known.2.append text⟩

theorem Headed.joint (known : mark ∈ joints) (first : Headed manner closing caps left)
    (second : Tidy manner caps right) : Headed manner closing caps (left ++ mark ++ right) :=
  ⟨.joint known first.spelled second.spelled, (first.heads.append mark).append right⟩

theorem Marked.own (known : text ∈ ownTexts ∧ Heads closing text ∧ EndsLine opening text) :
    Marked manner closing opening caps text :=
  ⟨⟨.own known.1, known.2.1⟩, known.2.2⟩

theorem Marked.tail (known : mark ∈ tails ∧ EndsLine opening mark)
    (headed : Headed manner closing caps text) : Marked manner closing opening caps (text ++ mark) :=
  ⟨⟨.tail known.1 headed.spelled, headed.heads.append mark⟩, known.2.append text⟩

end Lines

namespace Laid

variable {first second third : List Nat} {rows more : List Row} {level : Nat} {text : String}

theorem nil (levels : List Nat) : Laid manner levels levels caps [] :=
  ⟨.nil, fun _ => .nil levels⟩

theorem append (laid : Laid manner first second caps rows)
    (laidToo : Laid manner second third caps more) : Laid manner first third caps (rows ++ more) :=
  ⟨laid.listing.append laidToo.listing, fun tidy => (laid.nests tidy).append (laidToo.nests tidy)⟩

theorem cons {row : Row} (laid : Laid manner first second caps [row])
    (laidToo : Laid manner second third caps rows) : Laid manner first third caps (row :: rows) :=
  laid.append laidToo

theorem inside (laid : Laid manner [] [] caps rows) (levels : List Nat) :
    Laid manner levels levels caps rows :=
  ⟨laid.listing, fun tidy => (laid.nests tidy).inside levels⟩

theorem plain (line : Line manner.admits caps text)
    (still : manner.tidy → Clear text ∧ EndsLine false text) (levels : List Nat) :
    Laid manner levels levels caps [{ depth := level, text }] :=
  ⟨.line line .nil, fun tidy => .plain (still tidy).1 (still tidy).2 levels⟩

theorem sentence (sentence : Sentence manner caps text) (levels : List Nat) :
    Laid manner levels levels caps [{ depth := level, text }] :=
  .plain (.spelled sentence.worded.spelled) (fun tidy => ⟨sentence.worded.clear tidy, sentence.ends⟩)
    levels

theorem marked {closing opening : Bool} (marked : Marked manner closing opening caps text)
    (levels : List Nat) : Laid manner (bif closing then level :: levels else levels)
      (bif opening then level :: levels else levels) caps [{ depth := level, text }] :=
  ⟨.line (.spelled marked.spelled) .nil, fun _ => .line marked.heads marked.ends levels⟩

theorem of_remark {comment : Comment} (fine : manner.admits (.remark comment))
    (listing : Listing manner.admits caps rows) : Laid manner first second caps rows :=
  ⟨listing, fun tidy => (manner.braceless tidy fine).elim⟩

theorem braced {header close : String} (opens : Marked manner false true caps header)
    (laid : Laid manner [level] [level] caps rows) (closes : Marked manner true false caps close) :
    Laid manner [] [] caps ({ depth := level, text := header } ::
      rows ++ [{ depth := level, text := close }]) :=
  have opened : Laid manner [] [level] caps [{ depth := level, text := header }] := .marked opens []
  have closed : Laid manner [level] [] caps [{ depth := level, text := close }] := .marked closes []
  opened.cons (laid.append closed)

end Laid

end Retarget.C
