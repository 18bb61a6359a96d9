import Retarget.Proofs.CLineWriting

/-!
# C statements are laid out in lines

The lines of a statement are, in any layout, rows of written lines: every line but a comment is
spelled from the leaves of the statement.
-/

namespace Retarget

variable {s : Stmt} {init : Option Stmt} {condition : Option Expr}

namespace Text

theorem afterStart?_append (start rest : String) :
    afterStart? start (start ++ rest) = some rest := by simp [afterStart?, after?_append]

end Text

namespace Stmt

mutual

def caseLabels : Stmt → List (List SwitchLabel)
  | conditional _ body elifs none => caseLabelsOf body ++ caseLabelsOfBranches elifs
  | conditional _ body elifs (some otherwise) =>
    caseLabelsOf body ++ (caseLabelsOfBranches elifs ++ caseLabelsOf otherwise)
  | switch _ cases => caseLabelsOfCases cases
  | forLoop none _ _ body => caseLabelsOf body
  | forLoop (some init) _ _ body => init.caseLabels ++ caseLabelsOf body
  | whileLoop _ body | doWhile _ body | forEach _ _ _ body => caseLabelsOf body
  | block body => caseLabelsOf body
  | sequence parts => caseLabelsOf parts
  | declare .. | declareArray .. | expr _ | print _ | breakStmt | continueStmt | returnStmt _
  | comment _ | unsupported .. => []

def caseLabelsOf : List Stmt → List (List SwitchLabel)
  | [] => []
  | s :: rest => s.caseLabels ++ caseLabelsOf rest

def caseLabelsOfBranches : List Branch → List (List SwitchLabel)
  | [] => []
  | .mk _ body :: rest => caseLabelsOf body ++ caseLabelsOfBranches rest

def caseLabelsOfCases : List Case → List (List SwitchLabel)
  | [] => []
  | .mk labels body :: rest => labels :: (caseLabelsOf body ++ caseLabelsOfCases rest)

end

def Filled (tidy : Prop) (cases : List (List SwitchLabel)) : Prop :=
  tidy → ∀ labels ∈ cases, labels ≠ []

section Filled

variable {tidy : Prop} {first second : List (List SwitchLabel)}

theorem Filled.append (filled : Filled tidy (first ++ second)) :
    Filled tidy first ∧ Filled tidy second :=
  forall_and.mp fun holds => List.forall_mem_append.mp (filled holds)

theorem Filled.cons {labels : List SwitchLabel} (filled : Filled tidy (labels :: second)) :
    (tidy → labels ≠ []) ∧ Filled tidy second :=
  forall_and.mp fun holds => List.forall_mem_cons.mp (filled holds)

theorem Filled.forLoop {update : List Expr} {body : List Stmt}
    (filled : Filled tidy (forLoop init condition update body).caseLabels) :
    Filled tidy (caseLabelsOf body) := by
  cases init with
  | none => exact filled
  | some init => exact filled.append.2

end Filled

end Stmt

namespace C

open Text Attempt Braces
open Stmt (Filled caseLabelsOf caseLabelsOfBranches caseLabelsOfCases)

variable {manner : Manner} {level : Nat} {caps : Caps}

section Blocks

variable {header close : String} {rows : List Row} {body : Render (List String)}

theorem inRows_braced (opens : Marked manner false true caps header)
    (laid : Laid manner [level] [level] caps rows) (closes : Marked manner true false caps close) :
    InRows (Laid manner [] [] caps) fun layout =>
      Row.line layout { depth := level, text := header } :: Row.lines rows layout ++
        [Row.line layout { depth := level, text := close }] := by
  refine ⟨_, ?_, .braced opens laid closes⟩
  funext layout
  rw [Row.lines_append]
  rfl

theorem closingBrace : Marked manner true false caps "\x7d" :=
  .own (by decide)

theorem closed : Laid manner [level] [] caps [{ depth := level, text := "\x7d" }] :=
  .marked closingBrace []

theorem braced_lists (opens : Marked manner false true caps header)
    (lists : Lists manner (level + 1) caps body) :
    Lists manner level caps (braced header body) := by
  apply Render.line_bind
  apply (Render.Lays.nested lists).bind
  intro rows laid
  apply Render.line_bind
  exact .done (inRows_braced opens (laid.inside _) closingBrace)

theorem opened_lays {closing : Bool} (opens : Marked manner closing true caps header)
    (lists : Lists manner (level + 1) caps body) : (do
      let header ← Render.line header
      let inside ← Render.nested body
      return header :: inside : Attempt (List String)).Lays manner.cRule level caps
        (Laid manner (bif closing then [level] else []) [level] caps) := by
  apply line_bind
  apply (Lays.lift (.nested lists)).bind
  intro rows laid
  have opened : Laid manner _ [level] caps [{ depth := level, text := header }] :=
    .marked opens []
  exact .rows _ (fun _ => rfl) (opened.cons (laid.inside _))

end Blocks

section Comments

theorem Listing.remarks {admits : Leaf → Prop} {comment : Comment} (fine : admits (.remark comment))
    (isLine : comment.isBlock = false) {texts : List String}
    (parts : ∀ text ∈ texts, text ∈ lines comment.text) : Listing admits caps
      (texts.map fun text => { depth := level, text := Render.commentText "//" text }) := by
  induction texts with
  | nil => exact .nil
  | cons text rest ih =>
    exact .line (.remark fine isLine (parts text List.mem_cons_self))
      (ih fun other member => parts other (List.mem_cons_of_mem text member))

theorem commentLines_lists {comment : Comment} (fine : manner.admits (.remark comment)) :
    Lists manner level caps (commentLines comment) := by
  have marked (notBlock : ¬comment.isBlock = true) :
      Lists manner level caps (Render.commentLines "//" comment.text) :=
    Render.Lays.mapLine _ (.of_remark fine
      (.remarks fine (Bool.eq_false_iff.mpr notBlock) fun _ member => member))
  have single {text : String} (line : Line manner.admits caps text) :
      Lists manner level caps (Render.oneLine text) :=
    Render.Lays.oneLine (.of_remark fine (.line line .nil))
  apply Render.Writes.settings.bind
  rintro _ ⟨settings, rfl⟩
  by_cases dropped : (!settings.preserveComments) = true
  · simp only [if_pos dropped]
    exact .rows [] (fun _ => rfl) (.nil [])
  simp only [if_neg dropped]
  cases parted : lines comment.text with
  | nil => exact single .blankRemark
  | cons part rest =>
    cases rest with
    | nil =>
      apply Render.Writes.ite
      · intro isBlock
        exact single (.shortRemark fine isBlock parted)
      · intro notBlock
        exact marked notBlock
    | cons second rest =>
      apply Render.Writes.ite
      · intro isBlock
        apply Render.line_bind
        have middle : Render.Lays manner.cRule level caps
            ((part :: second :: rest).mapM fun part =>
              Render.line (Render.commentText " *" part)) fun rows =>
            rows = (lines comment.text).map fun part =>
              { depth := level, text := Render.commentText " *" part } :=
          Render.Lays.mapLine _ (by rw [parted])
        apply middle.bind
        rintro _ rfl
        apply Render.line_bind
        have whole : Listing manner.admits caps ({ depth := level, text := "/*" } :: _ ++ _) :=
          .remark fine isBlock .nil
        refine .rows _ ?_ (.of_remark fine whole)
        intro layout
        rw [Row.lines_append]
        rfl
      · intro notBlock
        exact marked notBlock

end Comments

section Loops

variable {body : Render (List String)}

theorem initClauses_said : (declared : Bool) → (stmts : List Stmt) →
    (∀ s ∈ stmts, s.Over manner.admits) →
      (initClauses declared stmts).Says manner.cRule level caps fun texts =>
        ∀ text ∈ texts, Tidy manner caps text
  | _, [], _ => .pure fun text member => by cases member
  | declared, s :: rest, clean => by
    have overRest := fun other member => clean other (List.mem_cons_of_mem s member)
    have continued (isDeclared : Bool) (clause : String) (worded : Tidy manner caps clause) : (do
          let others ← initClauses isDeclared rest
          return clause :: others : Attempt (List String)).Says manner.cRule level caps
            fun texts => ∀ text ∈ texts, Tidy manner caps text := by
      apply (initClauses_said isDeclared rest overRest).bind
      intro others wordedRest
      exact Says.pure (List.forall_mem_cons.mpr ⟨worded, wordedRest⟩)
    cases s with
    | declare name type init =>
      obtain ⟨fine, overInit⟩ := Stmt.over_declare (clean _ List.mem_cons_self)
      apply (typeName_said type).bind
      intro written names
      apply (declarator_said fine type overInit).bind
      intro text declares
      apply continued true
      cases declared with
      | false => exact declares.worded
      | true =>
        obtain ⟨again, rest, namesToo, worded, rfl⟩ := declares
        rw [names.unique namesToo, if_pos rfl, afterStart?_append]
        exact worded
    | expr e =>
      apply Writes.ite
      · intro _
        exact .refuse _
      · intro _
        apply (expr_spells e (clean _ List.mem_cons_self)).bind
        intro clause worded
        exact continued false clause worded
    | _ => exact .refuse _

theorem initClause_spells (clean : ∀ s ∈ init, s.Over manner.admits) :
    Spells manner level caps (initClause init) := by
  unfold initClause
  split
  · exact .pure (.own (by decide))
  next name type init =>
    obtain ⟨fine, overInit⟩ := Stmt.over_declare (clean _ rfl)
    exact .mono (declarator_said fine type overInit) fun _ declares => declares.worded
  next e => exact expr_spells e (clean _ rfl)
  next stmts =>
    apply (initClauses_said false stmts (fun s => Stmt.over_of_mem (clean _ rfl))).bind
    intro texts worded
    exact Spells.pure (.join (by decide) worded)
  · exact .refuse _

theorem conditionClause_spells (clean : ∀ e ∈ condition, e.Over manner.admits) :
    Spells manner level caps (conditionClause condition) := by
  cases condition with
  | none => exact .pure (.own (by decide))
  | some e =>
    apply (expr_spells e (clean e rfl)).bind
    intro text worded
    exact Spells.pure (.lead (by decide) worded)

theorem forLines_lists {update : List Expr} (overInit : ∀ s ∈ init, s.Over manner.admits)
    (overCondition : ∀ e ∈ condition, e.Over manner.admits)
    (overUpdate : ∀ leaf ∈ Expr.leavesOf update, manner.admits leaf)
    (lists : Lists manner (level + 1) caps body) :
    MayList manner level caps (forLines init condition update body) := by
  apply Writes.inScope
  apply (initClause_spells overInit).bind
  intro init wordedInit
  apply (conditionClause_spells overCondition).bind
  intro condition wordedCondition
  apply (exprs_spell update overUpdate).bind
  intro update wordedUpdate
  have updates : Tidy manner caps (if update.isEmpty then "" else " " ++ join ", " update) := by
    split
    · exact .own (by decide)
    · exact .lead (by decide) (.join (by decide) wordedUpdate)
  have header : Marked manner false true caps ("for (" ++ init ++ ";" ++ condition ++ ";" ++
      (if update.isEmpty then "" else " " ++ join ", " update) ++ ") \x7b") :=
    .tail (by decide) (.joint (by decide) (.joint (by decide)
      (.lead (by decide) wordedInit) wordedCondition) updates)
  exact .lift (braced_lists header lists)

theorem declareIndex_said (name : String) :
    (declareIndex name).Says manner.cRule level caps fun index =>
      manner.admits (.name index) := by
  have fresh : (Render.declareFresh "i" .int).Says manner.cRule level caps
      fun index => manner.admits (.name index) := by
    have fits (table : SymbolTable) : manner.cRule.Fits caps (.scalar (table.freshName "i") .int) :=
      ⟨manner.index table, fun _ found => by cases found⟩
    apply (Render.Writes.declareFresh fits).mono
    rintro _ ⟨table, rfl⟩
    exact ⟨_, rfl, manner.index table⟩
  apply fresh.bind
  intro index fine
  apply Render.Writes.ite
  · intro _
    exact fresh
  · intro _
    exact Render.Says.done fine

theorem bindElement_writes {source : Symbol} {name array index : String}
    (fits : manner.cRule.Fits caps source) (fine : manner.admits (.name name)) (type : ValueType)
    (first : Tidy manner caps array) (second : Tidy manner caps index) :
    Writes manner.cRule level caps (fun _ => bindElement source type name array index)
      fun result => ∃ text, Sentence manner caps text ∧
        result = fun layout => Row.line layout { depth := level, text } := by
  have written (text : String) (sentence : Sentence manner caps text) :
      Writes manner.cRule level caps (fun _ => liftM (Render.line text)) fun result =>
        ∃ text, Sentence manner caps text ∧
          result = fun layout => Row.line layout { depth := level, text } := by
    apply (Writes.lift (.line fun _ => text)).mono
    rintro _ rfl
    exact ⟨text, sentence, rfl⟩
  have element : Tidy manner caps (array ++ "[" ++ index ++ "]") :=
    .tail (by decide) (.joint (by decide) first second)
  apply (typeName_said type).bind
  intro typeName names
  apply Writes.ite
  · intro _
    have measured : Spelled manner.admits caps (source.aliasOf.getD array ++ "[0]") := by
      apply Spelled.tail (by decide)
      cases found : source.aliasOf with
      | none => exact first.spelled
      | some other => exact fits.2 other found
    apply (Says.lift (declareAlias_said fine measured type _ _)).bind
    intro target fineTarget
    apply written
    exact .tail (by decide) (.joint (by decide) (names.pointer (.name fineTarget)) element)
  · intro _
    apply (Says.lift (declareScalar_said fine type typeName)).bind
    intro target fineTarget
    apply written
    have declared : Tidy manner caps (typeName ++ " " ++ target) :=
      .joint (by decide) names.worded (.name fineTarget)
    exact .tail (by decide) (.joint (by decide) declared element)

theorem forEachLines_lists {name : String} {iterable : Expr} (type : ValueType)
    (fine : manner.admits (.name name)) (clean : iterable.Over manner.admits)
    (lists : Lists manner (level + 1) caps body) :
    MayList manner level caps (forEachLines type name iterable body) := by
  apply Says.symbols.bind
  intro table admits
  cases found : (iterable.ident?.bind table.lookup).filter Symbol.isArray with
  | none =>
    simp only [found]
    exact .refuse _
  | some source =>
    obtain ⟨present, -⟩ := Option.filter_eq_some_iff.mp found
    obtain ⟨_, -, inScope⟩ := Option.bind_eq_some_iff.mp present
    simp only [found]
    apply (expr_spells iterable clean).bind
    intro array worded
    apply (length_spells clean).bind
    intro count counted
    apply Writes.inScope
    apply (Says.lift (declareIndex_said name)).bind
    intro index fineIndex
    apply (Writes.indented (bindElement_writes (admits.lookup inScope) fine type worded
      (.name fineIndex))).bind
    rintro _ ⟨binding, sentence, rfl⟩
    apply line_bind
    apply (Lays.lift (.nested lists)).bind
    intro rows laid
    apply line_bind
    have header : Marked manner false true caps _ :=
      countingHeader_marked (.name fineIndex) counted
    have inside : Laid manner [level] [level] caps
        ({ depth := level + 1, text := binding } :: rows) :=
      (Laid.sentence sentence _).cons (laid.inside _)
    exact .pure (inRows_braced header inside closingBrace)

theorem doWhileLines_lists {condition : Expr} (clean : condition.Over manner.admits)
    (lists : Lists manner (level + 1) caps body) :
    MayList manner level caps (doWhileLines condition body) := by
  apply line_bind
  apply (Lays.lift (.nested lists)).bind
  intro rows laid
  apply (expr_spells condition clean).bind
  intro test worded
  apply line_bind
  have close : Marked manner true false caps ("\x7d while (" ++ test ++ ");") :=
    .tail (by decide) (.lead (by decide) worded)
  exact Writes.pure (inRows_braced (.own (by decide)) (laid.inside _) close)

end Loops

section Switches

variable {body : Render (List String)}

theorem labelText_said {label : SwitchLabel} (clean : ∀ leaf ∈ label.leaves, manner.admits leaf) :
    (labelText label).Says manner.cRule level caps (Marked manner false false caps) := by
  cases label with
  | value e =>
    apply (expr_spells e clean).bind
    intro text worded
    have marked : Marked manner false false caps ("case " ++ text ++ ":") :=
      .tail (by decide) (.lead (by decide) worded)
    exact Says.pure marked
  | default => exact .pure (.own (by decide))

theorem labelLines_lay (opensBrace : Bool) : (labels : List String) →
    (manner.tidy → labels ≠ []) → (∀ label ∈ labels, Marked manner false false caps label) →
      (labelLines opensBrace labels).Lays manner.cRule level caps
        (Laid manner [] (bif opensBrace then [level] else []) caps)
  | [], filled, _ => .rows [] (fun _ => rfl)
    ⟨.nil, fun tidy => absurd rfl (filled tidy)⟩
  | [label], _, marked => by
    have marked := marked label List.mem_cons_self
    cases opensBrace with
    | true =>
      have opens : Marked manner false true caps (label ++ " \x7b") :=
        .tail (by decide) marked.toHeaded
      exact .oneLine (.marked opens [])
    | false => exact .oneLine (.marked marked [])
  | label :: next :: rest, _, marked => by
    obtain ⟨first, markedRest⟩ := List.forall_mem_cons.mp marked
    apply Render.line_bind
    apply (labelLines_lay opensBrace (next :: rest) (fun _ => by simp) markedRest).bind
    intro rows laid
    have whole : Laid manner [] (bif opensBrace then [level] else []) caps
        ({ depth := level, text := label } :: rows) :=
      (Laid.marked first []).cons laid
    exact .rows _ (fun _ => rfl) whole

theorem caseLines_lists {labels : List SwitchLabel} (declares : Bool)
    (filled : manner.tidy → labels ≠ [])
    (clean : ∀ leaf ∈ labels.flatMap SwitchLabel.leaves, manner.admits leaf)
    (lists : Lists manner (level + 1 + 1) caps body) :
    MayList manner level caps (caseLines labels declares body) := by
  have texts : (labels.mapM labelText).Says manner.cRule level caps fun texts =>
      texts.length = labels.length ∧ ∀ text ∈ texts, Marked manner false false caps text := by
    refine .mapM fun label member => ?_
    apply labelText_said
    intro leaf inside
    exact clean leaf (List.mem_flatMap.mpr ⟨label, member, inside⟩)
  apply texts.bind
  rintro texts ⟨length, marked⟩
  have filledToo (tidy : manner.tidy) : texts ≠ [] := by
    rw [← List.length_pos_iff, length]
    exact List.length_pos_iff.mpr (filled tidy)
  apply Writes.lift
  apply Render.Writes.indented
  apply (labelLines_lay declares texts filledToo marked).bind
  intro first begins
  apply (Render.Lays.nested lists).bind
  intro inside laid
  have gathered (close : List Row)
      (closes : Laid manner (bif declares then [level + 1] else []) [] caps close) :
      Render.Writes manner.cRule (level + 1) caps (fun layout =>
        .done (Row.lines first layout ++ Row.lines inside layout ++ Row.lines close layout))
        (InRows (Laid manner [] [] caps)) := by
    refine .rows _ ?_ ((begins.append (laid.inside _)).append closes)
    intro layout
    rw [Row.lines_append, Row.lines_append]
  cases declares with
  | true =>
    have brace : (Render.oneLine "\x7d").Lays manner.cRule (level + 1) caps
        (Laid manner [level + 1] [] caps) :=
      Render.Lays.oneLine closed
    exact brace.bind gathered
  | false => exact gathered [] (.nil [])

theorem linkLines_lay {discriminant : String} {labels : List Expr} (isFirst : Bool)
    (worded : Tidy manner caps discriminant) (used : caps.contains .string = true)
    (clean : ∀ label ∈ labels, label.Over manner.admits)
    (lists : Lists manner (level + 1) caps body) :
    (linkLines isFirst discriminant labels body).Lays manner.cRule level caps
      (Laid manner (bif isFirst then [] else [level]) [level] caps) := by
  have tests : (labels.mapM (stringTest discriminant)).Says manner.cRule level caps
      fun texts => texts.length = labels.length ∧ ∀ text ∈ texts, Tidy manner caps text := by
    refine .mapM fun label member => ?_
    apply (expr_spells label (clean label member)).bind
    intro text wordedLabel
    have call : Tidy manner caps ("strcmp(" ++ discriminant ++ ", " ++ text) :=
      .joint (by decide) (.libraryLead (by decide) used worded) wordedLabel
    exact Spells.pure (.tail (by decide) call)
  apply tests.bind
  rintro texts ⟨-, worded⟩
  have joined : Tidy manner caps (join " || " texts) := .join (by decide) worded
  cases isFirst with
  | true =>
    have known : "if" ++ " (" ∈ leads ∧ Heads false ("if" ++ " (") := by decide
    exact opened_lays (.tail (by decide) (.lead known joined)) lists
  | false =>
    have known : "\x7d else if" ++ " (" ∈ leads ∧ Heads true ("\x7d else if" ++ " (") := by decide
    exact opened_lays (.tail (by decide) (.lead known joined)) lists

theorem chainEnd_writes {chain : List Row} (laid : chain = [] ∨ Laid manner [] [level] caps chain)
    {fallback : Option (Render (List String))}
    (lists : ∀ body ∈ fallback, Lists manner (level + 1) caps body) :
    Render.Writes manner.cRule level caps (fun layout => chainEnd (Row.lines chain layout) fallback)
      (InRows (Laid manner [] [] caps)) := by
  unfold chainEnd
  simp only [Row.isEmpty_lines]
  cases fallback with
  | none =>
    apply Render.Writes.ite
    · intro _
      exact .rows [] (fun _ => rfl) (.nil [])
    · intro filled
      have laid := laid.resolve_left (by simpa using filled)
      apply Render.line_bind
      refine .rows _ ?_ (laid.append closed)
      intro layout
      rw [Row.lines_append]
      rfl
  | some body =>
    have opened : Laid manner [] [level] caps (chain ++ [{ depth := level, text :=
        if chain.isEmpty then "\x7b" else "\x7d else \x7b" }]) := by
      cases chain with
      | nil => exact .marked (.own (by decide) : Marked manner false true caps "\x7b") []
      | cons row rest =>
        exact (laid.resolve_left (by simp)).append
          (.marked (.own (by decide) : Marked manner true true caps "\x7d else \x7b") [])
    apply Render.line_bind
    apply (Render.Lays.nested (lists body rfl)).bind
    intro rows inside
    apply Render.line_bind
    refine .rows _ ?_ ((opened.append (inside.inside _)).append closed)
    intro layout
    simp [Row.lines]

end Switches

section Statements

theorem opens_construct (clean : s.Over Braces.Admits) : opens s.construct = false := by
  cases s with
  | unsupported kind text => exact clean (.source kind text) List.mem_cons_self
  | _ =>
    rw [Stmt.construct]
    decide

/-- What takes the place of a statement opens and closes nothing. -/
theorem substitutes {source : Option String} (clean : s.Over manner.admits)
    (read : ∀ text ∈ source, manner.admits (.source s.construct text)) :
    Render.Substitutes manner.cRule level caps .c source s (Laid manner [] [] caps) := by
  refine .of_bare clean read (fun fine => ?_) ?_
  · apply (cLine_said fine).mono
    intro line? still line found
    exact .plain (.bare fine) (still line found) []
  · have mark : Heads false ("//" ++ " unsupported: ") := by decide
    have ends : EndsLine false ("//" ++ " unsupported: ") := by decide
    refine .plain (.placeholder clean) (fun tidy => ⟨(mark.append s.construct).clear, ?_⟩) []
    exact ends.append_of_opens (opens_construct fun leaf member =>
      manner.braceless tidy (clean leaf member))

theorem settle_lists {source : Option String} (clean : s.Over manner.admits)
    (read : ∀ text ∈ source, manner.admits (.source s.construct text))
    (lists : MayList manner level caps (stmt s)) :
    Lists manner level caps (Render.settle .c source s (stmt s)) :=
  Render.settle_lays lists (substitutes clean read)

theorem Lists.andThen {first second : Render (List String)} (lists : Lists manner level caps first)
    (listsToo : Lists manner level caps second) :
    Lists manner level caps (do return (← first) ++ (← second)) :=
  Render.Lays.andThen .append lists listsToo

/-- A conditional up to the last `else if` leaves one block open. -/
theorem conditional_bind {condition : Expr} {body : Render (List String)}
    {elifs : Attempt (List String)} {next : String → List String → List String → Attempt (List String)}
    (clean : condition.Over manner.admits) (lists : Lists manner (level + 1) caps body)
    (turns : elifs.Lays manner.cRule level caps (Laid manner [level] [level] caps))
    (ends : ∀ header inside middle,
      Laid manner [] [level] caps ({ depth := level, text := header } :: (inside ++ middle)) →
        Writes manner.cRule level caps (fun layout =>
          next (Row.line layout { depth := level, text := header }) (Row.lines inside layout)
            (Row.lines middle layout)) (InRows (Laid manner [] [] caps))) :
    MayList manner level caps (do
      let test ← expr condition
      let header ← Render.line ("if (" ++ test ++ ") \x7b")
      let inside ← Render.nested body
      let middle ← elifs
      next header inside middle) := by
  apply (expr_spells condition clean).bind
  intro test worded
  apply line_bind
  apply (Lays.lift (.nested lists)).bind
  intro inside laid
  apply turns.bind
  intro middle others
  have header : Marked manner false true caps ("if (" ++ test ++ ") \x7b") :=
    .tail (by decide) (.lead (by decide) worded)
  apply ends
  exact (Laid.marked header []).cons ((laid.inside _).append others)

mutual

theorem stmt_lists : (s : Stmt) → s.Over manner.admits → Filled manner.tidy s.caseLabels →
    ∀ level, MayList manner level caps (stmt s)
  | .declare name type init, clean, _, level => by
    obtain ⟨fine, overInit⟩ := Stmt.over_declare clean
    exact declareVariable_lists fine type overInit
  | .declareArray name element dimensions init, clean, _, level => by
    obtain ⟨fine, overInit⟩ := List.forall_mem_cons.mp clean
    exact declareArrayOf_lists fine element dimensions overInit
  | .expr e, clean, _, level => by
    apply (expr_spells e clean).bind
    intro text worded
    exact oneLine_mayList (.tail (by decide) worded)
  | .print p, clean, _, level => by
    apply (print_said clean).bind
    intro text sentence
    exact oneLine_mayList sentence
  | .conditional condition body elifs none, clean, filled, level => by
    obtain ⟨overCondition, clean⟩ := List.forall_mem_append.mp clean
    obtain ⟨overBody, overElifs⟩ := List.forall_mem_append.mp clean
    obtain ⟨inBody, inElifs⟩ := filled.append
    apply conditional_bind overCondition (stmts_lists body overBody inBody (level + 1)).1
      (branches_lay elifs overElifs inElifs level)
    intro header inside middle begun
    apply line_bind
    refine Writes.rows _ ?_ (begun.append closed)
    intro layout
    simp [Row.lines]
  | .conditional condition body elifs (some block), clean, filled, level => by
    obtain ⟨overCondition, clean⟩ := List.forall_mem_append.mp clean
    obtain ⟨overBody, clean⟩ := List.forall_mem_append.mp clean
    obtain ⟨overElifs, overBlock⟩ := List.forall_mem_append.mp clean
    obtain ⟨inBody, filled⟩ := filled.append
    obtain ⟨inElifs, inBlock⟩ := filled.append
    apply conditional_bind overCondition (stmts_lists body overBody inBody (level + 1)).1
      (branches_lay elifs overElifs inElifs level)
    intro header inside middle begun
    apply line_bind
    apply (Lays.lift (Render.Lays.nested (stmts_lists block overBlock inBlock (level + 1)).1)).bind
    intro rest otherwise
    apply line_bind
    have turned : Laid manner [level] [level] caps [{ depth := level, text := "\x7d else \x7b" }] :=
      .marked (.own (by decide) : Marked manner true true caps "\x7d else \x7b") []
    refine Writes.rows _ ?_ ((begun.append (turned.cons (otherwise.inside _))).append closed)
    intro layout
    simp [Row.lines]
  | .switch discriminant cases, clean, filled, level => by
    obtain ⟨overDiscriminant, overCases⟩ := List.forall_mem_append.mp clean
    apply Says.symbols.bind
    intro table _
    apply Writes.ite
    · intro _
      apply (Writes.lift (Render.Writes.warnFallthrough cases)).bind
      intro _ _
      apply (Writes.lift (Render.Writes.require .string)).bind
      intro _ used
      apply (expr_spells discriminant overDiscriminant).bind
      intro text worded
      apply (links_lay true cases overCases filled worded used).bind
      intro chain laid
      apply Writes.lift
      exact chainEnd_writes (laid.imp And.right id)
        (defaultBody_lists cases overCases filled (level + 1))
    · intro _
      apply (expr_spells discriminant overDiscriminant).bind
      intro text worded
      apply line_bind
      apply (nativeCases_list cases overCases filled level).bind
      intro inside laid
      apply line_bind
      have header : Marked manner false true caps ("switch (" ++ text ++ ") \x7b") :=
        .tail (by decide) (.lead (by decide) worded)
      exact Writes.pure (inRows_braced header (laid.inside _) closingBrace)
  | .forLoop init condition update body, clean, filled, level => by
    obtain ⟨overInit, overCondition, overUpdate, overBody⟩ := Stmt.over_forLoop clean
    exact forLines_lists overInit overCondition overUpdate
      (stmts_lists body overBody filled.forLoop (level + 1)).1
  | .whileLoop condition body, clean, filled, level => by
    obtain ⟨overCondition, overBody⟩ := List.forall_mem_append.mp clean
    apply (expr_spells condition overCondition).bind
    intro test worded
    have header : Marked manner false true caps ("while (" ++ test ++ ") \x7b") :=
      .tail (by decide) (.lead (by decide) worded)
    exact Lays.lift (braced_lists header (stmts_lists body overBody filled (level + 1)).1)
  | .doWhile condition body, clean, filled, level => by
    obtain ⟨overCondition, overBody⟩ := List.forall_mem_append.mp clean
    exact doWhileLines_lists overCondition (stmts_lists body overBody filled (level + 1)).1
  | .forEach type name iterable body, clean, filled, level => by
    obtain ⟨fine, clean⟩ := List.forall_mem_cons.mp clean
    obtain ⟨overIterable, overBody⟩ := List.forall_mem_append.mp clean
    exact forEachLines_lists type fine overIterable (stmts_lists body overBody filled (level + 1)).1
  | .breakStmt, _, _, _ | .continueStmt, _, _, _ | .returnStmt none, _, _, _ =>
    oneLine_mayList (.own (by decide))
  | .returnStmt (some value), _, _, level => by
    apply (Writes.lift (Render.Writes.warn _)).bind
    intro _ _
    exact oneLine_mayList (.own (by decide))
  | .comment comment, clean, _, level =>
    Lays.lift (commentLines_lists (clean _ List.mem_cons_self))
  | .block body, clean, filled, level =>
    Lays.lift (braced_lists (.own (by decide)) (stmts_lists body clean filled (level + 1)).1)
  | .sequence parts, clean, filled, level =>
    Lays.lift (stmts_lists parts clean filled level).1
  | .unsupported kind text, _, _, level => Writes.refuse _

theorem stmts_lists : (block : List Stmt) → (∀ leaf ∈ Stmt.leavesOf block, manner.admits leaf) →
    Filled manner.tidy (caseLabelsOf block) → ∀ level,
      Lists manner level caps (stmts block) ∧ Lists manner level caps (stmtsOfCase block)
  | [], _, _, level => by
    have none : Lists manner level caps (return []) :=
      Render.Writes.rows [] (fun _ => rfl) (.nil [])
    exact ⟨none, none⟩
  | s :: rest, clean, filled, level => by
    obtain ⟨overFirst, overRest⟩ := List.forall_mem_append.mp clean
    obtain ⟨inFirst, inRest⟩ := filled.append
    have first : Lists manner level caps (Render.settle .c none s (stmt s)) :=
      settle_lists overFirst (fun _ found => by cases found)
        (stmt_lists s overFirst inFirst level)
    obtain ⟨whole, ofCase⟩ := stmts_lists rest overRest inRest level
    refine ⟨first.andThen whole, ?_⟩
    unfold stmtsOfCase
    split
    · exact .rows [] (fun _ => rfl) (.nil [])
    · exact first.andThen ofCase

theorem branches_lay : (elifs : List Branch) →
    (∀ leaf ∈ Stmt.leavesOfBranches elifs, manner.admits leaf) →
      Filled manner.tidy (caseLabelsOfBranches elifs) → ∀ level,
        (branches elifs).Lays manner.cRule level caps (Laid manner [level] [level] caps)
  | [], _, _, level => .rows [] (fun _ => rfl) (.nil _)
  | .mk condition body :: rest, clean, filled, level => by
    obtain ⟨overCondition, clean⟩ := List.forall_mem_append.mp clean
    obtain ⟨overBody, overRest⟩ := List.forall_mem_append.mp clean
    obtain ⟨inBody, inRest⟩ := filled.append
    apply (expr_spells condition overCondition).bind
    intro test worded
    apply line_bind
    apply (Lays.lift (.nested (stmts_lists body overBody inBody (level + 1)).1)).bind
    intro inside laid
    apply (branches_lay rest overRest inRest level).bind
    intro others laidToo
    have header : Marked manner true true caps ("\x7d else if (" ++ test ++ ") \x7b") :=
      .tail (by decide) (.lead (by decide) worded)
    have whole : Laid manner [level] [level] caps ({ depth := level, text := _ } :: _) :=
      (Laid.marked header []).cons ((laid.inside _).append laidToo)
    refine .rows _ ?_ whole
    intro layout
    rw [Row.lines_cons, Row.lines_append]
    rfl

theorem nativeCases_list : (cases : List Case) →
    (∀ leaf ∈ Stmt.leavesOfCases cases, manner.admits leaf) →
      Filled manner.tidy (caseLabelsOfCases cases) → ∀ level,
        MayList manner level caps (nativeCases cases)
  | [], _, _, level => .rows [] (fun _ => rfl) (.nil [])
  | .mk labels body :: rest, clean, filled, level => by
    obtain ⟨overLabels, clean⟩ := List.forall_mem_append.mp clean
    obtain ⟨overBody, overRest⟩ := List.forall_mem_append.mp clean
    obtain ⟨filledFirst, filled⟩ := filled.cons
    obtain ⟨inBody, inRest⟩ := filled.append
    apply (caseLines_lists _ filledFirst overLabels
      (stmts_lists body overBody inBody (level + 1 + 1)).1).bind
    intro first laid
    apply (nativeCases_list rest overRest inRest level).bind
    intro others laidToo
    exact .rows _ (fun layout => (Row.lines_append _ _ layout).symm) (laid.append laidToo)

/-- A chain of comparisons leaves the block of its last link open, unless it has no link. -/
theorem links_lay (isFirst : Bool) : (cases : List Case) →
    (∀ leaf ∈ Stmt.leavesOfCases cases, manner.admits leaf) →
      Filled manner.tidy (caseLabelsOfCases cases) →
        ∀ {discriminant : String} {level : Nat},
          Tidy manner caps discriminant → caps.contains .string = true →
            (links isFirst discriminant cases).Lays manner.cRule level caps fun rows =>
              (isFirst = true ∧ rows = []) ∨
                Laid manner (bif isFirst then [] else [level]) [level] caps rows
  | [], _, _, _, level, _, _ => .rows [] (fun _ => rfl) <| by
    cases isFirst with
    | true => exact .inl ⟨rfl, rfl⟩
    | false => exact .inr (.nil [level])
  | .mk labels body :: rest, clean, filled, discriminant, level, worded, used => by
    obtain ⟨overLabels, clean⟩ := List.forall_mem_append.mp clean
    obtain ⟨overBody, overRest⟩ := List.forall_mem_append.mp clean
    obtain ⟨inBody, inRest⟩ := filled.cons.2.append
    unfold links
    split
    · exact links_lay isFirst rest overRest inRest worded used
    · apply (linkLines_lay isFirst worded used (SwitchLabel.over_exprs overLabels)
        (stmts_lists body overBody inBody (level + 1)).2).bind
      intro first laid
      apply (links_lay false rest overRest inRest worded used).bind
      intro others linked
      have laidToo := linked.resolve_left fun ⟨impossible, _⟩ => by cases impossible
      exact .rows _ (fun layout => (Row.lines_append _ _ layout).symm)
        (.inr (laid.append laidToo))

theorem defaultBody_lists : (cases : List Case) →
    (∀ leaf ∈ Stmt.leavesOfCases cases, manner.admits leaf) →
      Filled manner.tidy (caseLabelsOfCases cases) → ∀ level,
        ∀ body ∈ defaultBody cases, Lists manner level caps body
  | [], _, _, level, body, found => by
    rw [defaultBody] at found
    cases found
  | .mk labels block :: rest, clean, filled, level, body, found => by
    obtain ⟨-, clean⟩ := List.forall_mem_append.mp clean
    obtain ⟨overBlock, overRest⟩ := List.forall_mem_append.mp clean
    obtain ⟨inBlock, inRest⟩ := filled.cons.2.append
    have later := defaultBody_lists rest overRest inRest level
    rw [defaultBody] at found
    split at found
    next present =>
      cases found
      exact later _ present
    next =>
      split at found
      · cases found
        exact (stmts_lists block overBlock inBlock level).2
      · cases found

end

theorem stmt_mayList {diction : Diction} (clean : s.Over diction.admits) (level : Nat) :
    MayList (.of diction) level caps (stmt s) :=
  @stmt_lists (.of diction) caps s clean (fun impossible => impossible.elim) level

end Statements

end C

end Retarget
