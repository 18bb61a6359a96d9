import Retarget.Proofs.LeafWords

/-!
# Strings as one token

The body that a string literal or a text block leaves stands between double quotes in the output.
The body of a literal stays as it is. That of a text block makes up one literal just if no quote of
the block is escaped, no carriage return stands in a line and the last line ends outside an escape.
-/

namespace Retarget.Lexeme

open Text

/-- A body that makes up one literal between double quotes. -/
abbrev OneToken (body : String) : Prop :=
  '\r' ∉ body.toList ∧ quoteFrom '"' false body.toList = some false

/-- Whether the character after some characters of a line is escaped, unless they hold an escaped
quote or a line break. -/
def bareFrom : Bool → List Char → Option Bool
  | escaped, [] => some escaped
  | escaped, c :: cs =>
    if c = '\n' || c = '\r' || (escaped && c = '"') then none
    else bareFrom (!escaped && c = '\\') cs

/-- The lines of a text block from the text between its quotes, without margin and blank ends. -/
def blockLines (text : String) : List String :=
  let parts := lines ((afterStart? "\n" text).getD text)
  parts.map (blockLine (commonMargin parts))

/-- A quote written with a backslash more is escaped just if it was not before. -/
theorem respelled_oneToken_iff {escaped last : Bool} (cs : List Char) :
    let respelled := cs.flatMap fun c => if c = '"' then ['\\', '"'] else [c]
    '\r' ∉ respelled ∧ quoteFrom '"' escaped respelled = some last ↔
      bareFrom escaped cs = some last := by
  intro respelled
  induction cs generalizing escaped with
  | nil => simp [respelled, quoteFrom, bareFrom]
  | cons c cs ih =>
    simp only [respelled, List.flatMap_cons, List.mem_append, quoteFrom_append, bareFrom]
    by_cases quote : c = '"'
    · subst quote
      cases escaped <;> simp [quoteFrom, ← ih]
    · by_cases feed : c = '\n'
      · simp [quoteFrom, feed]
      · by_cases back : c = '\r' <;> simp [quoteFrom, quote, feed, back, ← ih, Ne.symm]

theorem bareFrom_append (escaped : Bool) (first second : List Char) :
    bareFrom escaped (first ++ second) =
      (bareFrom escaped first).bind fun reached => bareFrom reached second := by
  induction first generalizing escaped with
  | nil => rfl
  | cons c cs ih =>
    rw [List.cons_append, bareFrom, bareFrom, ih]
    split <;> rfl

/-- The mark between two lines leaves no escape open, so each line is read from its beginning. -/
theorem bareFrom_join_eq_some (lines : List String) :
    bareFrom false (join "\\n" lines).toList = some false ↔
      (∀ line ∈ lines, (bareFrom false line.toList).isSome) ∧
        ∀ last ∈ lines.getLast?, bareFrom false last.toList = some false := by
  induction lines with
  | nil => simp [join, bareFrom]
  | cons first rest ih =>
    cases rest with
    | nil => simp +contextual [join]
    | cons second rest =>
      have whole : (join "\\n" (first :: second :: rest)).toList =
          first.toList ++ '\\' :: 'n' :: (join "\\n" (second :: rest)).toList := by
        simp [join, String.intercalate_cons_cons]
      have mark (escaped : Bool) (cs : List Char) :
          bareFrom escaped ('\\' :: 'n' :: cs) = bareFrom false cs := by simp [bareFrom]
      rw [whole, bareFrom_append, List.getLast?_cons_cons, List.forall_mem_cons, and_assoc, ← ih]
      cases bareFrom false first.toList <;> simp [mark]

theorem beforeEnd?_append (front tail : String) : beforeEnd? tail (front ++ tail) = some front := by
  simp [beforeEnd?, after?_append]

theorem stringBody_block (text : String) : stringBody ("\"\"\"" ++ text ++ "\"\"\"") =
    respell '"' "\\\"" (join "\\n" (blockLines text)) := by
  have opened : afterStart? "\"\"\"" ("\"\"\"" ++ text ++ "\"\"\"") = some (text ++ "\"\"\"") := by
    simp [afterStart?, after?]
  simp only [stringBody, opened, textBlock, beforeEnd?_append, Option.getD_some, blockLines]

theorem stringBody_quoted {body : String} (one : OneToken body) : stringBody (quoted body) = body := by
  have single : afterStart? "\"\"\"" (quoted body) = none := by
    cases whole : body.toList with
    | nil => simp [afterStart?, quoted, whole, after?]
    | cons c cs =>
      have other : '"' ≠ c := by
        rintro rfl
        have kept := one.2
        simp [whole, quoteFrom] at kept
      simp [afterStart?, quoted, whole, after?, other]
  have opened : afterStart? "\"" (quoted body) = some (body ++ "\"") := by
    simp [afterStart?, quoted, after?]
  rw [stringBody, single, unquoted, opened, Option.getD_some, beforeEnd?_append, Option.getD_some]

/-- The body of a literal is one token again. That of a text block is one just if every quote of the
block stands bare, no line holds a carriage return and the last one ends outside an escape. -/
theorem stringBody_oneToken_iff (body : String) :
    (OneToken body → OneToken (stringBody (quoted body))) ∧
    (OneToken (stringBody ("\"\"\"" ++ body ++ "\"\"\"")) ↔
      (∀ line ∈ blockLines body, (bareFrom false line.toList).isSome) ∧
        ∀ last ∈ (blockLines body).getLast?, bareFrom false last.toList = some false) := by
  refine ⟨fun one => (stringBody_quoted one).symm ▸ one, ?_⟩
  have respelled (text : String) : (respell '"' "\\\"" text).toList =
      text.toList.flatMap fun c => if c = '"' then ['\\', '"'] else [c] := String.toList_ofList
  rw [OneToken, stringBody_block, respelled]
  exact (respelled_oneToken_iff _).trans (bareFrom_join_eq_some _)

/-- A text block with bare quotes, an indented line and a blank one. -/
theorem stringBody_oneToken_iff_bare_quotes :
    let body := "say \\\"hi\\\"\\n\\n  twice"
    OneToken body ∧ stringBody "\"\"\"\n  say \"hi\"\n\n    twice\"\"\"" = body ∧
      OneToken (stringBody (quoted body)) := by
  intro body
  have one : OneToken body := by decide
  exact ⟨one, by decide, (stringBody_oneToken_iff body).1 one⟩

/-- An escaped quote is closed by the backslash that is added to it, a backslash before the closing
quotes escapes the quote behind, and a bare carriage return stays in the text. -/
theorem stringBody_several_tokens :
    ¬OneToken (stringBody "\"\"\"\n  a \\\"b\\\"\n  \"\"\"") ∧
      ¬OneToken (stringBody "\"\"\"\n  a\\\n\"\"\"") ∧
      ¬OneToken (stringBody "\"\"\"\n  a\rb\"\"\"") := by decide

end Retarget.Lexeme
