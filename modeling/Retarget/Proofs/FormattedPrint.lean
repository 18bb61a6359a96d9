import Retarget.Proofs.PythonExprOrderly
import Retarget.Proofs.PythonOperand
import Retarget.Proofs.PythonPrinting

/-!
# Formatted prints

A formatted print is a call of `print` with a literal and, behind a percent sign, the values that
the literal formats.
-/

namespace Retarget.Python

open Text Attempt

/-! ## Conversion of a format -/

section Conversion

open Missing

variable {missing next : Missing} {spec : List Char} {c : Char}

def Missing.isShort (missing : Missing) : Prop :=
  missing = nothing ∨ missing = letter

theorem read?_convertSpec (hasArgs : Bool) (flags : nothing.read? spec.reverse = some missing)
    (short : missing.isShort) (steps : missing.step? c = some next) :
    nothing.read? (convertSpec hasArgs spec.reverse c) = some next := by
  unfold convertSpec
  split
  · obtain rfl | rfl := short <;> cases steps <;> rfl
  · obtain rfl | rfl := short <;> cases steps
    cases hasArgs <;> rfl
  iterate 3
    · rw [read?_append, flags, Option.bind_some]
      obtain rfl | rfl := short <;> cases steps <;> rfl
  · rw [read?_append, flags, Option.bind_some]
    simp [Missing.read?, steps]

theorem read?_convertFrom (hasArgs : Bool) {cs : List Char} {last : Missing}
    (reads : missing.read? cs = some last) :
    missing.read? (convertFrom hasArgs none cs) = some last ∧
    ∀ spec, nothing.read? spec.reverse = some missing → missing.isShort →
      nothing.read? (convertFrom hasArgs (some spec) cs) = some last := by
  induction cs generalizing missing with
  | nil =>
    cases reads
    exact ⟨rfl, fun spec flags _ => flags⟩
  | cons c cs ih =>
    rw [Missing.read?, List.foldlM_cons] at reads
    obtain ⟨next, steps, reads⟩ := Option.bind_eq_some_iff.mp reads
    obtain ⟨outside, inside⟩ := ih reads
    -- A percent sign and a comma are read where nothing is missing.
    have plain (mark : c = '%' ∨ c = ',') : missing = nothing ∧ next = nothing := by
      obtain rfl | rfl := mark <;> cases missing <;> cases steps <;> exact ⟨rfl, rfl⟩
    refine ⟨?_, fun spec flags short => ?_⟩
    · rw [convertFrom]
      split
      next percent =>
        obtain ⟨rfl, rfl⟩ := plain (.inl percent)
        exact inside ['%'] rfl (.inl rfl)
      next =>
        rw [Missing.read?, List.foldlM_cons, steps]
        exact outside
    · rw [convertFrom]
      split
      next letter =>
        rw [read?_append, read?_convertSpec hasArgs flags short steps]
        exact outside
      next noLetter =>
        split
        next comma =>
          obtain ⟨rfl, rfl⟩ := plain (.inr comma)
          exact inside spec flags short
        next =>
          refine inside (c :: spec) ?_ ?_
          · rw [List.reverse_cons, read?_append, flags, Option.bind_some]
            simp [Missing.read?, steps]
          · have noCode : c ≠ 'u' := by
              rintro rfl
              exact noLetter rfl
            obtain rfl | rfl := short
            · rw [step?] at steps
              split at steps
              · cases steps
              · cases steps
                split
                · exact .inr rfl
                · exact .inl rfl
            · rw [step?, if_neg noCode] at steps
              split at steps <;> cases steps
              exact .inl rfl

theorem content?_convertFormat (hasArgs : Bool) {body : String} {points : List Nat}
    (read : content? '"' body.toList = some points) :
    ∃ content, content? '"' (convertFormat hasArgs body).toList = some content := by
  have reads := Escape.exists_content_iff.mp ⟨points, read⟩
  rw [Escape.exists_content_iff, convertFormat, String.toList_ofList]
  exact (read?_convertFrom hasArgs reads).1

end Conversion

/-! ## The end of the line -/

def endsLine (format : String) : Bool :=
  (beforeEnd? "\\n" format).isSome

def lineBody (format : String) : String :=
  (beforeEnd? "\\n" format).getD format

def isCut (format : String) : Bool :=
  (beforeEnd? "\\n" format).any fun front =>
    (Escape.clear.decode '"' front.toList).any fun reached => reached.2 = .slash

theorem content?_lineBody {format : String} {content : List Nat}
    (read : content? '"' format.toList = some content) :
    (isCut format = true → content? '"' (lineBody format).toList = none) ∧
    (isCut format = false → ∃ before, content? '"' (lineBody format).toList = some before ∧
      before ++ lineEnd (endsLine format) = content) := by
  unfold lineBody endsLine isCut
  cases found : beforeEnd? "\\n" format with
  | none => exact ⟨fun cut => (by cases cut), fun _ => ⟨content, read, List.append_nil content⟩⟩
  | some front =>
    have split : format.toList = front.toList ++ ['\\', 'n'] := by
      rw [← append_of_beforeEnd? found, String.toList_append]
      rfl
    obtain ⟨all, last, ended, decoded, lastEnds, rfl⟩ := Escape.content?_eq_some_iff.mp read
    rw [split, Escape.decode_append] at decoded
    obtain ⟨⟨first, escape⟩, decodedFront, decoded⟩ := Option.bind_eq_some_iff.mp decoded
    obtain ⟨⟨later, final⟩, decodedEnd, same⟩ := Option.map_eq_some_iff.mp decoded
    cases same
    have content : content? '"' front.toList = escape.pending?.map (first ++ ·) := by
      rw [content?, decodedFront, Option.bind_some]
    simp only [Option.getD_some, Option.isSome_some, Option.any_some, decodedFront]
    rw [content]
    -- Behind a backslash the next one is escaped, and the letter stands for itself.
    by_cases back : escape = .slash
    · subst back
      exact ⟨fun _ => rfl, fun kept => by simp at kept⟩
    · have closes : ∃ points, escape.pending? = some points := by
        cases escape with
        | clear | octal => exact ⟨_, rfl⟩
        | slash => exact (back rfl).elim
        | code =>
          have stuck : Escape.digit? 16 '\\' = none := by decide
          simp [Escape.decode, Escape.step?, stuck] at decodedEnd
      obtain ⟨points, ends⟩ := closes
      have steps : escape.step? '"' '\\' = some (points, .slash) :=
        Escape.step?_of_not_absorbs ends (Escape.absorbs_of_no_digit escape (by decide) [])
      have feeds : Escape.slash.step? '"' 'n' = some ([10], .clear) := by decide
      simp only [Escape.decode, steps, feeds, Option.bind_some, Option.map_some] at decodedEnd
      cases decodedEnd
      cases lastEnds
      refine ⟨fun cut => (by simp [back] at cut), fun _ => ⟨first ++ points, by rw [ends]; rfl, ?_⟩⟩
      simp [lineEnd]

/-! ## The operand of the percent sign -/

/-- What a percent sign behind a literal is applied to: the tokens before the next operator outside
brackets. Only `**` would bind tighter, and it is never written. -/
def applied? : List Token → Option (List Token)
  | .literal _ :: .sign ['%'] :: rest => some ((cutAt? operates ⟨0, false⟩ rest).elim rest Prod.fst)
  | _ => none

def formatOperand : List String → String
  | [single] => single
  | many => bracketed (join ", " many)

/-- Whether an operator in the text of a single value comes behind the percent sign. A truth value
is converted and shows none. -/
def isSplit (table : SymbolTable) : List Expr → Bool
  | [arg] => table.typeOf arg ≠ .boolean && shows table arg
  | _ => false

theorem applied?_eq_some_iff {tokens : List Token} {shown : List String} (text : List Char)
    (shows : Shows tokens shown) :
    applied? (.literal text :: .sign ['%'] :: tokens) = some tokens ↔ shown = [] := by
  have surveyed : survey ⟨0, false⟩ tokens = some (shown, ⟨0, true⟩) := shows.surveyed 0
  rw [← cutAt?_operates_eq_none_iff surveyed, applied?, Option.some_inj]
  cases cut : cutAt? operates ⟨0, false⟩ tokens with
  | none => simp
  | some found =>
    have shorter := length_of_cutAt? cut
    simp only [Option.elim_some, reduceCtorEq, iff_false]
    rintro same
    rw [same] at shorter
    omega

section Operand

variable {table : SymbolTable} {args : List Expr} {texts : List String}

def ShownAs (table : SymbolTable) (arg : Expr) (text : String) : Prop :=
  ∃ inner, Renders table arg inner ∧
    text = if table.typeOf arg = .boolean then booleanForm arg inner else inner

theorem ShownAs.prints {arg : Expr} {text : String} (single : hasSingleLeaves table arg = true)
    (known : ShownAs table arg text) :
    ∃ shown, Prints text shown ∧ (shown = [] ↔ isSplit table [arg] = false) := by
  obtain ⟨inner, renders, rfl⟩ := known
  have rendered := renders.of_yields (expr_rendered table arg single)
  by_cases truth : table.typeOf arg = .boolean
  · rw [if_pos truth]
    refine ⟨[], rendered.asBoolean, ?_⟩
    simp [isSplit, truth]
  · rw [if_neg truth]
    obtain ⟨shown, prints, shown_iff, -⟩ := rendered
    refine ⟨shown, prints, shown_iff.trans ?_⟩
    simp [isSplit, truth]

theorem formatArgs_eq (filled : texts ≠ []) : formatArgs texts = " % " ++ formatOperand texts := by
  cases texts with
  | nil => exact (filled rfl).elim
  | cons text others => cases others <;> rfl

theorem exists_arguments (single : ∀ arg ∈ args, hasSingleLeaves table arg = true)
    (known : List.Forall₂ (ShownAs table) args texts) :
    ∃ pieces, List.Forall₂ Argument texts pieces ∧ texts.mapM lexis.tokens? = some pieces := by
  induction known with
  | nil => exact ⟨[], .nil, rfl⟩
  | cons first _ ih =>
    obtain ⟨fine, others⟩ := List.forall_mem_cons.mp single
    obtain ⟨shown, ⟨tokens, _, _, _, _, spells, shows⟩, -⟩ := first.prints fine
    obtain ⟨pieces, each, cut⟩ := ih others
    refine ⟨tokens :: pieces, .cons ⟨spells, shown, shows⟩ each, ?_⟩
    simp [List.mapM_cons, Lexis.tokens?_of_spells spells, cut]

theorem exists_operand {pieces : List (List Token)} (filled : args ≠ [])
    (single : ∀ arg ∈ args, hasSingleLeaves table arg = true)
    (known : List.Forall₂ (ShownAs table) args texts) (each : List.Forall₂ Argument texts pieces) :
    ∃ operand shown, lexis.Spells (formatOperand texts).toList operand ∧ Shows operand shown ∧
      (shown = [] ↔ isSplit table args = false) ∧
      (1 < args.length → (inner? opening closing operand).bind commaArgs? = some pieces) := by
  cases known with
  | nil => exact (filled rfl).elim
  | @cons arg text args texts first others =>
    cases others with
    | nil =>
      obtain ⟨shown, ⟨tokens, _, _, _, _, spells, shows⟩, shown_iff⟩ :=
        first.prints (single arg List.mem_cons_self)
      exact ⟨tokens, shown, spells, shows, shown_iff, fun several => by simp at several⟩
    | @cons next nextText args texts _ _ =>
      obtain ⟨spells, fills⟩ := spells_join (List.cons_ne_nil _ _) each
      have cut := commaArgs?_intercalate (List.cons_ne_nil _ _) each
      have opened : (formatOperand (text :: nextText :: texts)).toList =
          '(' :: ((join ", " (text :: nextText :: texts)).toList ++ [')']) := by
        simp [formatOperand, bracketed]
      refine ⟨_, [], opened ▸ spells.bracketed, .bracketed Shows.round_mem fills,
        iff_of_true rfl rfl, fun _ => ?_⟩
      have found := inner?_append opening closing ([.sign [',']].intercalate pieces)
      exact (congrArg (Option.bind · commaArgs?) found).trans cut

/-- How a formatted print is read: it has one argument besides the one that keeps the line open. A
percent sign in it is applied to all of the values exactly if it is not split, and several values are
those of the print in order. -/
def ReadsFormat (table : SymbolTable) (args : List Expr) (texts : List String) (front : String)
    (newline : Bool) : Prop :=
  ∃ tokens, lexis.tokens? (quoted front ++ formatArgs texts) = some tokens ∧
    printArgs? (applied "print" (quoted front ++ formatArgs texts ++ printEnd newline)) =
      some ([tokens], newline) ∧
    (args ≠ [] → ∃ operand, lexis.tokens? (formatOperand texts) = some operand ∧
      (applied? tokens = some operand ↔ isSplit table args = false) ∧
      (1 < args.length → ∃ pieces, texts.mapM lexis.tokens? = some pieces ∧
        (inner? opening closing operand).bind commaArgs? = some pieces))

theorem readsFormat {front : String} {points : List Nat}
    (content : content? '"' front.toList = some points)
    (single : ∀ arg ∈ args, hasSingleLeaves table arg = true)
    (known : List.Forall₂ (ShownAs table) args texts) (newline : Bool) :
    ReadsFormat table args texts front newline := by
  have spells := spells_quoted content
  have literal : Shows [.literal (quoted front).toList] [] := .operand rfl
  have call {tokens : List Token} (argument : Argument (quoted front ++ formatArgs texts) tokens) :
      printArgs? (applied "print" (quoted front ++ formatArgs texts ++ printEnd newline)) =
        some ([tokens], newline) := by
    have cut := printArgs?_join (List.cons_ne_nil _ _) (.cons argument .nil) newline
    rw [Text.join, String.intercalate_singleton] at cut
    exact cut
  by_cases empty : args = []
  · subst empty
    cases known
    have argument : Argument (quoted front ++ formatArgs []) _ :=
      ⟨String.append_empty.symm ▸ spells, [], literal⟩
    exact ⟨_, Lexis.tokens?_of_spells argument.spells, call argument, fun filled => (filled rfl).elim⟩
  · obtain ⟨pieces, each, cut⟩ := exists_arguments single known
    obtain ⟨operand, shown, operandSpells, shows, shown_iff, several⟩ :=
      exists_operand empty single known each
    have written : texts ≠ [] := by
      rintro rfl
      cases known
      exact empty rfl
    have reads : lexis.scan .between ("%".toList ++ [' ']) = some ([.sign ['%']], .between) := by
      decide
    have applies (depth : Nat) : tokenStep ⟨depth, true⟩ (.sign ['%']) =
        some (if depth = 0 then ["%"] else [], ⟨depth, false⟩) := rfl
    have opened : (quoted front ++ formatArgs texts).toList =
        (quoted front).toList ++ ' ' :: ("%".toList ++ ' ' :: (formatOperand texts).toList) := by
      simp [formatArgs_eq written]
    have argument : Argument (quoted front ++ formatArgs texts) _ :=
      ⟨opened ▸ spells.spaced reads operandSpells, _, literal.joined applies shows⟩
    refine ⟨_, Lexis.tokens?_of_spells argument.spells, call argument, fun _ => ⟨operand,
      Lexis.tokens?_of_spells operandSpells, ?_, fun many => ⟨pieces, cut, several many⟩⟩⟩
    exact (applied?_eq_some_iff _ shows).trans shown_iff

end Operand

section Print

variable {table : SymbolTable} {args : List Expr} {texts : List String} {body : String}

theorem formattedPrint_gives (values : Gives table (args.mapM printedValue) (· = texts)) :
    Gives table (formattedPrint (.literal (.string body) :: args)) (· =
      applied "print" (quoted (lineBody (convertFormat (!texts.isEmpty) body)) ++
        formatArgs texts ++ printEnd (endsLine (convertFormat (!texts.isEmpty) body)))) := by
  refine values.bind fun found same => ?_
  subst same
  unfold lineBody endsLine
  dsimp only
  generalize beforeEnd? "\\n" (convertFormat (!found.isEmpty) body) = cut
  cases cut with
  | none =>
    split
    · exact (Gives.warn _).bind fun _ _ => .pure rfl
    · exact .pure rfl
  | some front =>
    split
    · exact (Gives.warn _).bind fun _ _ => .pure rfl
    · exact .pure rfl

/-- A formatted print with a format that can be read and values that can be rendered. The values are
written in order behind the percent sign, and the format is converted into one that can be read. If
no escape is cut, the literal and the end of the line are that format, and the call is read as a
literal and a percent sign, which is applied to all of the values exactly if they are not split. If
an escape is cut, the literal has no end. -/
theorem print_formatted {points : List Nat} (read : content? '"' body.toList = some points)
    (single : ∀ arg ∈ args, hasSingleLeaves table arg = true)
    (rendered : ∀ arg ∈ args, ∃ text, Renders table arg text) (newline : Bool) :
    ∃ texts format content, format = convertFormat (!args.isEmpty) body ∧
      List.Forall₂ (ShownAs table) args texts ∧
      Gives table (print ⟨.literal (.string body) :: args, newline, true⟩) (· =
        applied "print" (quoted (lineBody format) ++ formatArgs texts ++
          printEnd (endsLine format))) ∧
      content? '"' format.toList = some content ∧
      (isCut format = true → content? '"' (lineBody format).toList = none) ∧
      (isCut format = false →
        (∃ before, content? '"' (lineBody format).toList = some before ∧
          before ++ lineEnd (endsLine format) = content) ∧
        ReadsFormat table args texts (lineBody format) (endsLine format)) := by
  have shown : Gives table (args.mapM printedValue) (List.Forall₂ (ShownAs table) args) := by
    refine .mapM fun arg member => ?_
    obtain ⟨inner, renders⟩ := rendered arg member
    exact renders.printedValue.mono fun text same => ⟨inner, renders, same⟩
  obtain ⟨texts, gives, known⟩ :=
    (Consulting.mapM fun _ _ => printedValue_consulting (.inl trivial)).exists_gives shown
  have count : args.isEmpty = texts.isEmpty := by
    cases known <;> rfl
  obtain ⟨content, readFormat⟩ := content?_convertFormat (!args.isEmpty) read
  obtain ⟨cut, kept⟩ := content?_lineBody readFormat
  refine ⟨texts, _, content, rfl, known, ?_, readFormat, cut, fun uncut => ?_⟩
  · rw [count]
    exact formattedPrint_gives gives
  · obtain ⟨before, readFront, joined⟩ := kept uncut
    exact ⟨⟨before, readFront, joined⟩, readsFormat readFront single known _⟩

/-- A sum and a truth value, with a format that ends the line. -/
theorem print_formatted_line :
    let table : SymbolTable := { inner := [.scalar "n" .int, .scalar "on" .boolean] }
    let body := "%,5d\\t%b%n"
    let args : List Expr := [.binary .add (.ident "n") (.literal (.int "1")), .ident "on"]
    (∃ points, content? '"' body.toList = some points) ∧
      (∀ arg ∈ args, hasSingleLeaves table arg = true) ∧
      (∀ arg ∈ args, ∃ text, Renders table arg text) ∧
      ∃ texts, List.Forall₂ (ShownAs table) args texts ∧
        Gives table (print ⟨.literal (.string body) :: args, false, true⟩)
          (· = applied "print" (quoted "%5d\\t%s" ++ formatArgs texts ++ "")) ∧
        ReadsFormat table args texts "%5d\\t%s" true := by
  intro table body args
  have read : content? '"' body.toList = some (codePoints "%,5d\t%b%n") := by decide
  have single : ∀ arg ∈ args, hasSingleLeaves table arg = true :=
    List.all_iff_forall_prop.mp (by decide)
  have rendered : ∀ arg ∈ args, ∃ text, Renders table arg text := by
    have runs : (∃ result after, (expr (.binary .add (.ident "n") (.literal (.int "1")))).run.run
          { target := .python, symbols := table } = .ok (result, after) ∧ result = .ok "n + 1") ∧
        ∃ result after, (expr (.ident "on")).run.run
          { target := .python, symbols := table } = .ok (result, after) ∧ result = .ok "on" := by
      decide +kernel
    obtain ⟨⟨_, _, first, rfl⟩, _, _, second, rfl⟩ := runs
    refine List.forall_mem_cons.mpr ⟨⟨_, (renders_of_run rfl first).1⟩, ?_⟩
    exact List.forall_mem_singleton.mpr ⟨_, (renders_of_run rfl second).1⟩
  have front : lineBody (convertFormat (!args.isEmpty) body) = "%5d\\t%s" := by decide
  have ends : endsLine (convertFormat (!args.isEmpty) body) = true := by decide
  refine ⟨⟨_, read⟩, single, rendered, ?_⟩
  obtain ⟨texts, _, _, rfl, known, gives, -, -, reads⟩ :=
    print_formatted read single rendered false
  have intact := (reads (by decide)).2
  rw [front, ends] at gives intact
  exact ⟨texts, known, gives, intact⟩

/-- A sum loses its second operand, and a format that ends in an escaped backslash and an `n` loses
its quote. -/
theorem print_formatted_misses :
    let cx : Context :=
      { target := .python, symbols := { inner := [.scalar "a" .int, .scalar "b" .int] } }
    let sum : Expr := .binary .add (.ident "a") (.ident "b")
    (∃ result after, (print ⟨[.literal (.string "%d"), sum], false, true⟩).run.run cx =
        .ok (result, after) ∧ result = .ok "print(\"%d\" % a + b, end=\"\")") ∧
      (lexis.tokens? "\"%d\" % a + b").bind applied? = some [.word ['a']] ∧
      lexis.tokens? "a + b" = some [.word ['a'], .sign ['+'], .word ['b']] ∧
      (∃ result after, (print ⟨[.literal (.string "C:\\\\n")], false, true⟩).run.run cx =
        .ok (result, after) ∧ result = .ok "print(\"C:\\\")") ∧
      content? '"' "C:\\\\n".toList = some (codePoints "C:\\n") ∧
      content? '"' "C:\\".toList = none := by decide +kernel

end Print

end Retarget.Python
