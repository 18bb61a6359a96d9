import Retarget.Proofs.Leaves

/-!
# Texts and rows

The results that renderings come to in any layout are of two kinds. What a rendering says is one
value, the same in all layouts; what it lays out are rows, which each layout turns into lines.
-/

namespace Retarget

variable {source : Option String}

variable {α β γ : Type} {rule : SymbolRule} {level : Nat} {caps : Caps}

def Row.lines (rows : List Row) (layout : Layout) : List String :=
  rows.map (Row.line layout)

namespace Row

theorem isEmpty_lines (rows : List Row) (layout : Layout) :
    (lines rows layout).isEmpty = rows.isEmpty := by simp [lines]

theorem lines_append (first second : List Row) (layout : Layout) :
    lines (first ++ second) layout = lines first layout ++ lines second layout := by simp [lines]

theorem lines_cons (row : Row) (rows : List Row) (layout : Layout) :
    lines (row :: rows) layout = row.line layout :: lines rows layout := rfl

end Row

def Constant (holds : α → Prop) (result : Layout → α) : Prop :=
  ∃ value, result = (fun _ => value) ∧ holds value

def InRows (shape : List Row → Prop) (result : Layout → List String) : Prop :=
  ∃ rows, result = Row.lines rows ∧ shape rows

namespace Render

variable {holds : α → Prop} {shape : List Row → Prop} {post : (Layout → β) → Prop}

def Says (rule : SymbolRule) (level : Nat) (caps : Caps) (rendering : Render α)
    (holds : α → Prop) : Prop :=
  Writes rule level caps (fun _ => rendering) (Constant holds)

def Lays (rule : SymbolRule) (level : Nat) (caps : Caps) (rendering : Render (List String))
    (shape : List Row → Prop) : Prop :=
  Writes rule level caps (fun _ => rendering) (InRows shape)

theorem Says.bind {first : Render α} {rest : Layout → α → Render β}
    (begun : first.Says rule level caps holds)
    (next : ∀ value, holds value → Writes rule level caps (fun layout => rest layout value) post) :
    Writes rule level caps (fun layout => first >>= rest layout) post := by
  apply Writes.bind begun
  rintro _ ⟨value, rfl, fact⟩
  exact next value fact

theorem Lays.bind {first : Render (List String)} {rest : Layout → List String → Render β}
    (begun : first.Lays rule level caps shape)
    (next : ∀ rows, shape rows →
      Writes rule level caps (fun layout => rest layout (Row.lines rows layout)) post) :
    Writes rule level caps (fun layout => first >>= rest layout) post := by
  apply Writes.bind begun
  rintro _ ⟨rows, rfl, fact⟩
  exact next rows fact

theorem line_bind {text : String} {rest : Layout → String → Render β}
    (next : Writes rule level caps
      (fun layout => rest layout (Row.line layout { depth := level, text })) post) :
    Writes rule level caps (fun layout => line text >>= rest layout) post := by
  apply (Writes.line fun _ => text).bind
  rintro _ rfl
  exact next

theorem Says.done {value : α} (fact : holds value) : Says rule level caps (.done value) holds :=
  Writes.done ⟨value, rfl, fact⟩

theorem Says.mono {rendering : Render α} {weaker : α → Prop}
    (constant : rendering.Says rule level caps holds)
    (weaken : ∀ value, holds value → weaker value) : rendering.Says rule level caps weaker := by
  have writes : Writes rule level caps (fun _ => rendering) (Constant holds) := constant
  apply writes.mono
  rintro _ ⟨value, rfl, fact⟩
  exact ⟨value, rfl, weaken value fact⟩

theorem Writes.rows (rows : List Row) {lines : Layout → List String}
    (same : ∀ layout, lines layout = Row.lines rows layout) (fact : shape rows) :
    Writes rule level caps (fun layout => .done (lines layout)) (InRows shape) :=
  Writes.done ⟨rows, funext same, fact⟩

theorem Lays.oneLine {text : String} (fact : shape [{ depth := level, text }]) :
    (oneLine text).Lays rule level caps shape :=
  line_bind (.rows _ (fun _ => rfl) fact)

theorem Lays.mapLine {f : α → String} (xs : List α)
    (fact : shape (xs.map fun x => { depth := level, text := f x })) :
    Lays rule level caps (xs.mapM fun x => line (f x)) shape := by
  have rows : Writes rule level caps (fun _ => xs.mapM fun x => line (f x)) fun result =>
      result = Row.lines (xs.map fun x => { depth := level, text := f x }) := by
    clear fact
    induction xs with
    | nil => exact .done rfl
    | cons x xs ih =>
      simp only [List.mapM_cons]
      apply line_bind
      apply ih.bind
      rintro _ rfl
      exact .done rfl
  apply rows.mono
  intro result same
  exact ⟨_, same, fact⟩

theorem Lays.nested {body : Render (List String)} (lays : body.Lays rule (level + 1) caps shape) :
    (Render.nested body).Lays rule level caps shape :=
  Writes.indented (.inScope lays)

theorem Lays.andThen {first second : Render (List String)}
    (append : ∀ {rows more}, shape rows → shape more → shape (rows ++ more))
    (lays : first.Lays rule level caps shape) (laysToo : second.Lays rule level caps shape) :
    Lays rule level caps (do return (← first) ++ (← second)) shape := by
  apply lays.bind
  intro rows fact
  apply laysToo.bind
  intro others factToo
  exact .rows _ (fun layout => (Row.lines_append _ _ layout).symm) (append fact factToo)

/-- What a rendering writes may rely on the capabilities that are in use after it. -/
theorem Writes.agrees_of_run {target : Target} {extent : Extent} {excused : α → Prop}
    {rendering : Render α} {cx after : Context} {value : α} {holds : (Layout → α) → Prop}
    (writes : Writes rule 0 after.capabilities (fun _ => rendering) holds)
    (steps : rendering.Steps True target 0 extent excused)
    (admits : rule.Admits after.capabilities cx.symbols)
    (ends : rendering.run cx = .ok (value, after)) : ∃ result, holds result ∧
      value = result cx.layout ∧ Agrees (fun _ => rendering) 0 cx cx.layout result after := by
  obtain ⟨result, reached, -, fact, agrees⟩ :=
    writes cx admits cx.layout value after ends fun passed member =>
      steps.capabilities_le ends member
  cases ends.symm.trans agrees.run_start
  exact ⟨result, fact, rfl, agrees⟩

theorem Lays.rows_of_run {target : Target} {rendering : Render (List String)} {cx after : Context}
    {lines : List String} (lays : rendering.Lays rule 0 after.capabilities shape)
    (orderly : rendering.Orderly target .declaring) (admits : rule.Admits after.capabilities cx.symbols)
    (ends : rendering.run cx = .ok (lines, after)) :
    ∃ rows, lines = Row.lines rows cx.layout ∧ shape rows := by
  obtain ⟨_, ⟨rows, rfl, fact⟩, same, -⟩ := Writes.agrees_of_run lays orderly admits ends
  exact ⟨rows, same, fact⟩

end Render

namespace Attempt

inductive Outcome (post : (Layout → α) → Prop) : (Layout → Except Refusal α) → Prop where
  | refused (refusal : Refusal) : Outcome post fun _ => .error refusal
  | given {value : Layout → α} (fact : post value) : Outcome post fun layout => .ok (value layout)

/-- A family of attempts that in all layouts refuses for one reason or comes to one result as a
function of the layout. -/
def Writes (rule : SymbolRule) (level : Nat) (caps : Caps) (family : Layout → Attempt α)
    (post : (Layout → α) → Prop) : Prop :=
  Render.Writes rule level caps (fun layout => (family layout).run) (Outcome post)

def Says (rule : SymbolRule) (level : Nat) (caps : Caps) (attempt : Attempt α)
    (holds : α → Prop) : Prop :=
  Writes rule level caps (fun _ => attempt) (Constant holds)

def Lays (rule : SymbolRule) (level : Nat) (caps : Caps) (attempt : Attempt (List String))
    (shape : List Row → Prop) : Prop :=
  Writes rule level caps (fun _ => attempt) (InRows shape)

variable {holds : α → Prop} {shape : List Row → Prop} {post : (Layout → β) → Prop}

namespace Writes

variable {begins : (Layout → α) → Prop}

theorem bind {first : Layout → Attempt α} {rest : Layout → α → Attempt β}
    (begun : Writes rule level caps first begins)
    (next : ∀ value, begins value →
      Writes rule level caps (fun layout => rest layout (value layout)) post) :
    Writes rule level caps (fun layout => first layout >>= rest layout) post := by
  apply Render.Writes.bind begun
  intro result outcome
  cases outcome with
  | refused refusal => exact .done (.refused refusal)
  | given fact => exact next _ fact

theorem pure {value : Layout → α} (fact : begins value) :
    Writes rule level caps (fun layout => pure (value layout)) begins :=
  Render.Writes.done (.given fact)

theorem lift {family : Layout → Render α} (writes : Render.Writes rule level caps family begins) :
    Writes rule level caps (fun layout => liftM (family layout)) begins :=
  Render.Writes.bind writes fun _ fact => .done (.given fact)

theorem mono {family : Layout → Attempt α} {weaker : (Layout → α) → Prop}
    (writes : Writes rule level caps family begins)
    (weaken : ∀ value, begins value → weaker value) : Writes rule level caps family weaker := by
  apply Render.Writes.mono writes
  intro result outcome
  cases outcome with
  | refused refusal => exact .refused refusal
  | given fact => exact .given (weaken _ fact)

theorem ite {condition : Prop} [Decidable condition] {yes no : Layout → Attempt α}
    (pos : condition → Writes rule level caps yes begins)
    (neg : ¬condition → Writes rule level caps no begins) :
    Writes rule level caps (fun layout => if condition then yes layout else no layout) begins :=
  Render.Writes.ite pos neg

theorem refuse (refusal : Refusal) :
    Writes rule level caps (fun _ => (refuse refusal : Attempt α)) begins :=
  Render.Writes.giveUp (.done (.refused refusal))

theorem indented {family : Layout → Attempt α} (writes : Writes rule (level + 1) caps family begins) :
    Writes rule level caps (fun layout => indented (family layout)) begins :=
  Render.Writes.indented writes

theorem inScope {family : Layout → Attempt α} (writes : Writes rule level caps family begins) :
    Writes rule level caps (fun layout => inScope (family layout)) begins :=
  Render.Writes.inScope writes

theorem rows (rows : List Row) {lines : Layout → List String}
    (same : ∀ layout, lines layout = Row.lines rows layout) (fact : shape rows) :
    Writes rule level caps (fun layout => Pure.pure (lines layout)) (InRows shape) :=
  pure ⟨rows, funext same, fact⟩

end Writes

theorem line_bind {text : String} {rest : Layout → String → Attempt β}
    (next : Writes rule level caps
      (fun layout => rest layout (Row.line layout { depth := level, text })) post) :
    Writes rule level caps (fun layout => liftM (Render.line text) >>= rest layout) post := by
  apply (Writes.lift (.line fun _ => text)).bind
  rintro _ rfl
  exact next

namespace Says

theorem bind {first : Attempt α} {rest : Layout → α → Attempt β}
    (begun : first.Says rule level caps holds)
    (next : ∀ value, holds value → Writes rule level caps (fun layout => rest layout value) post) :
    Writes rule level caps (fun layout => first >>= rest layout) post := by
  apply Writes.bind begun
  rintro _ ⟨value, rfl, fact⟩
  exact next value fact

theorem pure {value : α} (fact : holds value) : Says rule level caps (pure value) holds :=
  Writes.pure ⟨value, rfl, fact⟩

theorem lift {rendering : Render α} (constant : rendering.Says rule level caps holds) :
    Says rule level caps (liftM rendering) holds :=
  Writes.lift constant

theorem symbols : Says rule level caps (liftM Render.symbols) (rule.Admits caps) :=
  Writes.lift .symbols

theorem ofExcept (result : Except Fault α) :
    Says rule level caps (ofExcept result) fun value => result = .ok value :=
  Writes.lift (.ofExcept result)

theorem mono {attempt : Attempt α} {weaker : α → Prop}
    (constant : attempt.Says rule level caps holds)
    (weaken : ∀ value, holds value → weaker value) : attempt.Says rule level caps weaker := by
  apply Writes.mono constant
  rintro _ ⟨value, rfl, fact⟩
  exact ⟨value, rfl, weaken value fact⟩

theorem mapM {f : γ → Attempt α} {xs : List γ}
    (constant : ∀ x ∈ xs, (f x).Says rule level caps holds) :
    Says rule level caps (xs.mapM f) fun values =>
      values.length = xs.length ∧ ∀ value ∈ values, holds value := by
  induction xs with
  | nil => exact pure ⟨rfl, nofun⟩
  | cons x xs ih =>
    obtain ⟨first, others⟩ := List.forall_mem_cons.mp constant
    rw [List.mapM_cons]
    apply first.bind
    intro value fact
    apply (ih others).bind
    rintro values ⟨length, facts⟩
    exact pure ⟨by simp [length], List.forall_mem_cons.mpr ⟨fact, facts⟩⟩

end Says

namespace Lays

theorem bind {first : Attempt (List String)} {rest : Layout → List String → Attempt β}
    (begun : first.Lays rule level caps shape)
    (next : ∀ rows, shape rows →
      Writes rule level caps (fun layout => rest layout (Row.lines rows layout)) post) :
    Writes rule level caps (fun layout => first >>= rest layout) post := by
  apply Writes.bind begun
  rintro _ ⟨rows, rfl, fact⟩
  exact next rows fact

theorem lift {rendering : Render (List String)} (lays : rendering.Lays rule level caps shape) :
    Lays rule level caps (liftM rendering) shape :=
  Writes.lift lays

theorem oneLine {text : String} (fact : shape [{ depth := level, text }]) :
    Lays rule level caps (liftM (Render.oneLine text)) shape :=
  lift (.oneLine fact)

theorem rows_of_run {target : Target} {extent : Extent} {attempt : Attempt (List String)}
    {cx after : Context} {lines : List String} (lays : attempt.Lays rule 0 after.capabilities shape)
    (orderly : attempt.Orderly target extent) (admits : rule.Admits after.capabilities cx.symbols)
    (ends : attempt.run.run cx = .ok (.ok lines, after)) :
    ∃ rows, lines = Row.lines rows cx.layout ∧ shape rows := by
  obtain ⟨result, outcome, same, -⟩ := Render.Writes.agrees_of_run lays orderly admits ends
  cases outcome with
  | refused refusal => cases same
  | given fact =>
    obtain ⟨rows, rfl, fact⟩ := fact
    cases same
    exact ⟨rows, rfl, fact⟩

end Lays

end Attempt

namespace Render

variable {target : Target} {shape : List Row → Prop}

theorem mayBeEmpty_width (settings : Settings) (width : Nat) (stmt : Stmt) :
    mayBeEmpty { settings with indentWidth := width } stmt = mayBeEmpty settings stmt := by
  cases stmt <;> rfl

theorem Writes.warnOpenCases (number : Nat) (cases : List Case) :
    Writes rule level caps (fun _ => Render.warnOpenCases number cases) fun _ => True := by
  fun_induction Render.warnOpenCases number cases with
  | case1 => exact .done True.intro
  | case2 => exact .done True.intro
  | case3 number case rest _ _ _ ih => exact (Writes.warn _).bind fun _ _ => ih
  | case4 number case rest _ _ _ ih => exact ih

theorem Writes.warnFallthrough (cases : List Case) :
    Writes rule level caps (fun _ => Render.warnFallthrough cases) fun _ => True := by
  apply (Writes.warnOpenCases 1 cases).bind
  intro _ _
  split
  · exact .warn _
  · exact .done True.intro

/-- What may take the place of a statement: a line from its bare text, and a placeholder. -/
structure Substitutes (rule : SymbolRule) (level : Nat) (caps : Caps) (target : Target)
    (source : Option String) (stmt : Stmt) (shape : List Row → Prop) : Prop where
  degraded : (degradedLine target source stmt).Says rule level caps fun line? =>
    ∀ text, line? = some text → shape [{ depth := level, text }]
  placeholder : shape [{ depth := level, text := target.placeholder stmt.construct }]

theorem admits_of_sourceText {admits : Leaf → Prop} {s : Stmt} {text : String}
    (clean : s.Over admits) (read : ∀ text ∈ source, admits (.source s.construct text))
    (found : sourceText source s = some text) : ∃ kind, admits (.source kind text) := by
  cases s with
  | unsupported kind own =>
    cases found
    exact ⟨kind, clean _ List.mem_cons_self⟩
  | _ => exact ⟨_, read text found⟩

theorem Substitutes.of_bare {s : Stmt} {admits : Leaf → Prop} (clean : s.Over admits)
    (read : ∀ text ∈ source, admits (.source s.construct text))
    (bare : ∀ {kind text : String}, admits (.source kind text) →
      (Degraded.line target text).Says rule level caps fun line? =>
        ∀ text, line? = some text → shape [{ depth := level, text }])
    (placeholder : shape [{ depth := level, text := target.placeholder s.construct }]) :
    Substitutes rule level caps target source s shape where
  degraded := by
    unfold degradedLine
    cases found : sourceText source s with
    | none => exact .done fun line found => by cases found
    | some text =>
      obtain ⟨kind, fine⟩ := admits_of_sourceText clean read found
      exact bare fine
  placeholder := placeholder

theorem degrade_lays {stmt : Stmt}
    (substitutes : Substitutes rule level caps target source stmt shape) (reason : String) :
    (degrade target source stmt reason).Lays rule level caps shape := by
  apply Writes.giveUp
  apply substitutes.degraded.bind
  intro line? fact
  cases line? with
  | some text => exact (Writes.warn _).bind fun _ _ => Lays.oneLine (fact text rfl)
  | none => exact (Writes.warn _).bind fun _ _ => Lays.oneLine substitutes.placeholder

theorem settle_lays {stmt : Stmt} {attempt : Attempt (List String)}
    (lays : attempt.Lays rule level caps shape)
    (substitutes : Substitutes rule level caps target source stmt shape) :
    (settle target source stmt attempt).Lays rule level caps shape := by
  have begun : Writes rule level caps (fun _ => attempt.run) (Attempt.Outcome (InRows shape)) :=
    lays
  apply begun.bind
  intro result outcome
  cases outcome with
  | refused refusal => exact degrade_lays substitutes _
  | given fact =>
    obtain ⟨rows, rfl, fact⟩ := fact
    apply Writes.settings.bind
    rintro _ ⟨settings, rfl⟩
    simp only [Row.isEmpty_lines, mayBeEmpty_width]
    by_cases kept : (!rows.isEmpty || mayBeEmpty settings stmt) = true
    · simp only [if_pos kept]
      exact .rows rows (fun _ => rfl) fact
    · simp only [if_neg kept]
      exact degrade_lays substitutes _

end Render

end Retarget
