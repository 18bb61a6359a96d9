import Retarget.Proofs.Naming

/-!
# Writing in any layout

The layout of a context, its level of indentation and the width of a level, decides where a line
begins and nothing else.
-/

namespace Retarget

variable {cx : Context} {fault : Fault} {text name : String}

/-- The level of indentation and the width of a level. -/
structure Layout where
  indent : Nat
  width : Nat
  deriving DecidableEq

/-- The faults of a level that a machine word cannot count, and of a margin that a machine word or
a text cannot hold. -/
def Fault.ofRoom : List Fault :=
  [.add, .multiply, .capacity]

namespace Layout

def down (layout : Layout) (levels : Nat) : Layout :=
  { layout with indent := layout.indent + levels }

/-- A layout is below another if it is indented no deeper and no wider. -/
instance layoutLE : LE Layout where
  le layout other := layout.indent ≤ other.indent ∧ layout.width ≤ other.width

instance decidableLayoutLE (layout other : Layout) : Decidable (layout ≤ other) :=
  inferInstanceAs (Decidable (layout.indent ≤ other.indent ∧ layout.width ≤ other.width))

/-- What stands before a text some levels deeper. -/
def margin (layout : Layout) (depth : Nat) : String :=
  String.ofList (List.replicate ((layout.indent + depth) * layout.width) ' ')

def unit (layout : Layout) : String :=
  String.ofList (List.replicate layout.width ' ')

end Layout

/-- The word that a header line of a block begins with. -/
inductive Keyword where
  | if
  | elif
  | else
  | for
  | while
  deriving DecidableEq

/-- A line without its margin: how many levels deeper it stands than the block it belongs to, its
text, and the word that makes it the header of a block. -/
structure Row where
  depth : Nat
  text : String
  header : Option Keyword := none
  deriving DecidableEq

def Row.line (layout : Layout) (row : Row) : String :=
  layout.margin row.depth ++ row.text

theorem Row.line_unit (layout : Layout) (depth : Nat) (text : String) :
    Row.line layout { depth, text := layout.unit ++ text } =
      Row.line layout { depth := depth + 1, text } := by
  have margin : layout.margin depth ++ layout.unit = layout.margin (depth + 1) := by
    rw [Layout.margin, Layout.unit, Layout.margin, ← String.ofList_append,
      List.replicate_append_replicate, ← Nat.add_assoc, Nat.succ_mul]
  show layout.margin depth ++ (layout.unit ++ text) = layout.margin (depth + 1) ++ text
  rw [← String.append_assoc, margin]

namespace Context

def layout (cx : Context) : Layout :=
  { indent := cx.indent, width := cx.settings.indentWidth }

def relaid (cx : Context) (layout : Layout) : Context :=
  { cx with indent := layout.indent, settings := { cx.settings with indentWidth := layout.width } }

theorem relaid_warn (cx : Context) (layout : Layout) (message : String) :
    (cx.relaid layout).warn message = (cx.warn message).relaid layout := by
  by_cases given : message ∈ cx.warnings
  · simp [Context.warn, relaid, given]
  · simp [Context.warn, relaid, given]

theorem capabilities_warn (cx : Context) (message : String) :
    (cx.warn message).capabilities = cx.capabilities := by
  unfold Context.warn
  split <;> rfl

end Context

instance capabilitiesLE : LE Caps where
  le set other := ∀ capability, set.contains capability = true → other.contains capability = true

namespace Caps

theorem le_refl (set : Caps) : set ≤ set :=
  fun _ used => used

theorem le_trans {first second third : Caps} (below : first ≤ second)
    (above : second ≤ third) : first ≤ third :=
  fun capability used => above capability (below capability used)

end Caps

/-- An orderly rendering comes through no more capabilities than it ends with. -/
theorem Render.Steps.capabilities_le {α : Type} {target : Target} {room : Nat} {extent : Extent}
    {excused : α → Prop} {rendering : Render α} {after passed : Context} {value : α}
    (steps : rendering.Steps True target room extent excused)
    (ends : rendering.run cx = .ok (value, after)) (member : passed ∈ rendering.trail cx) :
    passed.capabilities ≤ after.capabilities := by
  induction steps generalizing cx after passed with
  | done value => cases member
  | halt fault => cases member
  | read _ ih => exact ih cx (.inl trivial) ends member
  | warn message =>
    cases ends
    cases List.mem_singleton.mp member
    exact Caps.le_refl _
  | require capability =>
    cases ends
    cases List.mem_singleton.mp member
    exact Caps.le_refl _
  | declareFor symbol =>
    obtain ⟨message, rfl⟩ | ⟨chosen, reached⟩ := mem_trail_declareFor member
    · have orderly : Orderly target .declaring (Render.declareFor target symbol) :=
        .declareFor symbol
      rw [Context.capabilities_warn]
      exact (orderly.frame ends).capabilities
    · cases ends.symm.trans reached
      exact Caps.le_refl _
  | declareFresh base type free =>
    cases ends
    cases List.mem_singleton.mp member
    exact Caps.le_refl _
  | indented _ steps ih =>
    obtain ⟨between, _, inside, rfl⟩ := run_indented_eq_ok ends
    obtain rfl | within | ⟨_, _, again, rfl⟩ := (mem_trail_indented.mp member).2
    · exact (steps.frame inside).capabilities
    · have least := ih inside within
      exact least
    · cases inside.symm.trans again
      exact Caps.le_refl _
  | inScope steps ih =>
    obtain ⟨between, inside, rfl⟩ := run_inScope_eq_ok ends
    obtain rfl | within | ⟨_, _, again, rfl⟩ := mem_trail_inScope.mp member
    · exact (steps.frame inside).capabilities
    · have least := ih inside within
      exact least
    · cases inside.symm.trans again
      exact Caps.le_refl _
  | giveUp _ _ ih => exact ih ends member
  | bind _ restSteps _ firstIh restIh =>
    obtain ⟨middle, between, begun, rest⟩ := bind_eq_ok.mp ends
    obtain inside | ⟨_, _, again, inside⟩ := mem_trail_bind.mp member
    · exact Caps.le_trans (firstIh begun inside) ((restSteps middle).frame rest).capabilities
    · cases begun.symm.trans again
      exact restIh middle rest inside

/-- What symbols in scope have to satisfy, given the capabilities that may be in use. -/
structure SymbolRule where
  Fits : Caps → Symbol → Prop

namespace SymbolRule

variable {rule : SymbolRule} {caps : Caps} {table : SymbolTable}

def Admits (rule : SymbolRule) (caps : Caps) (table : SymbolTable) : Prop :=
  ∀ symbol ∈ table.symbols, rule.Fits caps symbol

theorem Admits.declare (admits : rule.Admits caps table) {symbol : Symbol}
    (fits : rule.Fits caps symbol) : rule.Admits caps (table.declare symbol) := by
  intro other member
  rcases SymbolTable.eq_or_mem_of_mem_declare member with rfl | old
  · exact fits
  · exact admits other old

theorem Admits.push (admits : rule.Admits caps table) : rule.Admits caps table.push := by
  intro symbol member
  obtain ⟨scope, inTable, inScope⟩ := SymbolTable.mem_symbols.mp member
  rcases List.mem_cons.mp inTable with rfl | old
  · cases inScope
  · exact admits symbol (SymbolTable.mem_symbols.mpr ⟨scope, old, inScope⟩)

theorem Admits.pop (admits : rule.Admits caps table) : rule.Admits caps table.pop := by
  intro symbol member
  obtain ⟨scope, inTable, inScope⟩ := SymbolTable.mem_symbols.mp member
  refine admits symbol (SymbolTable.mem_symbols.mpr ⟨scope, ?_, inScope⟩)
  unfold SymbolTable.pop at inTable
  split at inTable
  · exact inTable
  next outer =>
    simp only [SymbolTable.scopes, outer]
    exact .tail _ inTable

theorem Admits.lookup (admits : rule.Admits caps table) {symbol : Symbol}
    (found : table.lookup name = some symbol) : rule.Fits caps symbol := by
  obtain ⟨scope, inTable, inScope⟩ := List.exists_of_findSome?_eq_some found
  exact admits symbol (SymbolTable.mem_symbols.mpr
    ⟨scope, inTable, List.mem_of_find?_eq_some inScope⟩)

end SymbolRule

namespace Naming

def StandsFor (name chosen : String) : Prop :=
  chosen = name ∨ ∃ n, chosen = substitute name n

end Naming

theorem SymbolTable.substituteFor_eq (table : SymbolTable) (reserved : List String)
    (name : String) : ∃ n, table.substituteFor reserved name = Naming.substitute name n := by
  obtain ⟨n, -, found⟩ := Naming.exists_firstFree_eq _ _
  exact ⟨n, found⟩

namespace Render

variable {α β : Type} {rule : SymbolRule} {level : Nat} {caps : Caps}

variable {body : Render α}

theorem run_line_eq (text : String) (cx : Context) : (line text).run cx =
    if cx.indent * cx.settings.indentWidth ≤ maxTextSize then
      .ok (Row.line cx.layout { depth := 0, text }, cx)
    else .error (if cx.indent * cx.settings.indentWidth < wordCount then .capacity
      else .multiply) := by
  have counts : maxTextSize < wordCount := by decide
  simp only [line, run_bind, run_get, run_ofExcept, Except.bind, Context.line, mulWords]
  by_cases product : cx.indent * cx.settings.indentWidth < wordCount
  · rw [if_pos product, if_pos product]
    by_cases room : cx.indent * cx.settings.indentWidth ≤ maxTextSize
    · simp only [Bind.bind, Except.bind, spaces, if_pos room]
      rfl
    · simp only [Bind.bind, Except.bind, spaces, if_neg room]
      rfl
  · rw [if_neg product, if_neg product, if_neg (by omega)]
    rfl

theorem run_line_eq_ok {written : String} {after : Context} :
    (line text).run cx = .ok (written, after) ↔ cx.line text = .ok written ∧ after = cx := by
  simp only [line, run_bind, run_get, run_ofExcept, Except.bind]
  cases cx.line text with
  | error fault => simp [Except.map]
  | ok line => simp [Except.map, eq_comm]

/-- In every layout, the rendering of that layout comes to the result for it, unless the layout is
not below one that it started in and there is no room for it. -/
def Agrees (family : Layout → Render α) (level : Nat) (cx : Context) (start : Layout)
    (result : Layout → α) (after : Context) : Prop :=
  ∀ layout, (family layout).run (cx.relaid (layout.down level)) =
      .ok (result layout, after.relaid (layout.down level)) ∨
    ¬layout ≤ start ∧ ∃ fault ∈ Fault.ofRoom,
      (family layout).run (cx.relaid (layout.down level)) = .error fault

namespace Agrees

variable {family : Layout → Render α} {start : Layout} {result : Layout → α} {after : Context}

theorem run_start (agrees : Agrees family level cx start result after) :
    (family start).run (cx.relaid (start.down level)) =
      .ok (result start, after.relaid (start.down level)) :=
  (agrees start).resolve_right fun above => above.1 ⟨Nat.le_refl _, Nat.le_refl _⟩

theorem of_run (run : ∀ layout, (family layout).run (cx.relaid (layout.down level)) =
      .ok (result layout, after.relaid (layout.down level))) :
    Agrees family level cx start result after :=
  fun layout => .inl (run layout)

/-- A rendering that depends on the layout for its room agrees with itself. -/
theorem of_room {fits : Layout → Prop} [DecidablePred fits] {fault : Layout → Fault} {value : α}
    {reached : Context} (run : ∀ layout, (family layout).run (cx.relaid (layout.down level)) =
      if fits layout then .ok (result layout, cx.relaid (layout.down level))
      else .error (fault layout))
    (room : ∀ layout, fault layout ∈ Fault.ofRoom)
    (narrower : ∀ layout, layout ≤ start → fits start → fits layout)
    (ends : (family start).run (cx.relaid (start.down level)) = .ok (value, reached)) :
    Agrees family level cx start result cx := by
  intro layout
  by_cases holds : fits layout
  · exact .inl ((run layout).trans (if_pos holds))
  · refine .inr ⟨fun below => ?_, fault layout, room layout, (run layout).trans (if_neg holds)⟩
    rw [run, if_neg fun first => holds (narrower layout below first)] at ends
    cases ends

end Agrees

theorem mapped_of_agrees {outcome : Except Fault (α × Context)} {expected : α × Context}
    {above : Prop} (leave : α × Context → β × Context)
    (agrees : outcome = .ok expected ∨ above ∧ ∃ fault ∈ Fault.ofRoom, outcome = .error fault) :
    outcome.map leave = .ok (leave expected) ∨
      above ∧ ∃ fault ∈ Fault.ofRoom, outcome.map leave = .error fault := by
  rcases agrees with rfl | ⟨above, fault, room, rfl⟩
  · exact .inl rfl
  · exact .inr ⟨above, fault, room, rfl⟩

/-- A family of renderings, one for each layout and some levels below it, that comes to one result
as a function of the layout. The symbols keep to the rule, and the result has a property, given
capabilities that are never exceeded. -/
def Writes (rule : SymbolRule) (level : Nat) (caps : Caps) (family : Layout → Render α)
    (post : (Layout → α) → Prop) : Prop :=
  ∀ cx : Context, rule.Admits caps cx.symbols → ∀ start value reached,
    (family start).run (cx.relaid (start.down level)) = .ok (value, reached) →
    (∀ passed ∈ (family start).trail (cx.relaid (start.down level)), passed.capabilities ≤ caps) →
      ∃ result after, rule.Admits caps after.symbols ∧ post result ∧
        Agrees family level cx start result after

namespace Writes

variable {holds : (Layout → α) → Prop} {post : (Layout → β) → Prop}

variable {family : Layout → Render α}

theorem done {value : Layout → α} (fact : holds value) :
    Writes rule level caps (fun layout => .done (value layout)) holds := by
  intro cx admits start _ _ _ _
  exact ⟨value, cx, admits, fact, .of_run fun _ => rfl⟩

theorem bind {first : Layout → Render α} {rest : Layout → α → Render β}
    (begun : Writes rule level caps first holds)
    (next : ∀ result, holds result →
      Writes rule level caps (fun layout => rest layout (result layout)) post) :
    Writes rule level caps (fun layout => first layout >>= rest layout) post := by
  intro cx admits start value reached ends least
  obtain ⟨middle, between, firstRun, restRun⟩ := bind_eq_ok.mp ends
  obtain ⟨result, meanwhile, fit, fact, agrees⟩ := begun cx admits start middle between firstRun
    fun passed member => least passed (mem_trail_bind.mpr (.inl member))
  cases firstRun.symm.trans agrees.run_start
  obtain ⟨final, after, fitToo, last, agreesToo⟩ :=
    next result fact meanwhile fit start value reached restRun fun passed member =>
      least passed (mem_trail_bind.mpr (.inr ⟨_, _, firstRun, member⟩))
  refine ⟨final, after, fitToo, last, fun layout => ?_⟩
  rw [run_bind]
  rcases agrees layout with firstEnds | ⟨above, fault, room, fails⟩
  · rw [firstEnds]
    exact agreesToo layout
  · rw [fails]
    exact .inr ⟨above, fault, room, rfl⟩

theorem mono {weaker : (Layout → α) → Prop} (writes : Writes rule level caps family holds)
    (weaken : ∀ result, holds result → weaker result) : Writes rule level caps family weaker := by
  intro cx admits start value reached ends least
  obtain ⟨result, after, fit, fact, agrees⟩ := writes cx admits start value reached ends least
  exact ⟨result, after, fit, weaken result fact, agrees⟩

theorem ite {condition : Prop} [Decidable condition] {yes no : Layout → Render α}
    (pos : condition → Writes rule level caps yes holds)
    (neg : ¬condition → Writes rule level caps no holds) :
    Writes rule level caps (fun layout => if condition then yes layout else no layout) holds := by
  by_cases chosen : condition
  · simp only [if_pos chosen]
    exact pos chosen
  · simp only [if_neg chosen]
    exact neg chosen

theorem giveUp (writes : Writes rule level caps family holds) :
    Writes rule level caps (fun layout => .giveUp (family layout)) holds :=
  writes

theorem change {f : Context → Context} {fact : Prop}
    (relays : ∀ cx layout, f (cx.relaid layout) = (f cx).relaid layout)
    (keeps : ∀ cx, rule.Admits caps cx.symbols → (f cx).capabilities ≤ caps →
      rule.Admits caps (f cx).symbols ∧ fact) :
    Writes rule level caps (fun _ => change f) fun _ => fact := by
  intro cx admits start _ _ _ least
  have last := least _ List.mem_cons_self
  rw [relays] at last
  obtain ⟨fit, holds⟩ := keeps cx admits last
  refine ⟨fun _ => (), f cx, fit, holds, .of_run fun layout => ?_⟩
  rw [← relays]
  rfl

theorem warn (message : String) : Writes rule level caps (fun _ => warn message) fun _ => True := by
  refine change (fun cx layout => cx.relaid_warn layout message) fun cx admits _ => ?_
  rw [Context.symbols_warn]
  exact ⟨admits, True.intro⟩

theorem require (capability : Capability) :
    Writes rule level caps (fun _ => require capability) fun _ =>
      caps.contains capability = true :=
  change (fun _ _ => rfl) fun cx admits least =>
    ⟨admits, least capability (by cases capability <;> rfl)⟩

theorem symbols : Writes rule level caps (fun _ => symbols) fun result =>
    ∃ table, result = (fun _ => table) ∧ rule.Admits caps table := by
  intro cx admits start _ _ _ _
  exact ⟨fun _ => cx.symbols, cx, admits, ⟨_, rfl, admits⟩, .of_run fun _ => rfl⟩

theorem settings : Writes rule level caps (fun _ => settings) fun result =>
    ∃ settings : Settings, result = fun layout =>
      { settings with indentWidth := layout.width } := by
  intro cx admits start _ _ _ _
  exact ⟨_, cx, admits, ⟨cx.settings, rfl⟩, .of_run fun _ => rfl⟩

theorem ofExcept (result : Except Fault α) :
    Writes rule level caps (fun _ => ofExcept result) fun reached =>
      ∃ value, reached = (fun _ => value) ∧ result = .ok value := by
  cases result with
  | ok value => exact done ⟨value, rfl, rfl⟩
  | error fault =>
    intro cx _ start _ _ ends
    cases ends

theorem line (text : Layout → String) :
    Writes rule level caps (fun layout => line (text layout)) fun result =>
      result = fun layout => Row.line layout { depth := level, text := text layout } := by
  intro cx admits start value reached ends _
  have run (layout : Layout) := run_line_eq (text layout) (cx.relaid (layout.down level))
  refine ⟨_, cx, admits, rfl, .of_room run (fun layout => ?_) (fun layout below => ?_) ends⟩
  · split <;> decide
  · exact Nat.le_trans (Nat.mul_le_mul (Nat.add_le_add_right below.1 level) below.2)

theorem unit : Writes rule level caps (fun layout => Render.ofExcept (spaces layout.width))
    fun result => result = Layout.unit := by
  have run (layout : Layout) (cx : Context) : (Render.ofExcept (spaces layout.width)).run cx =
      if layout.width ≤ maxTextSize then .ok (layout.unit, cx) else .error .capacity := by
    rw [run_ofExcept, spaces]
    split <;> rfl
  intro cx admits start value reached ends _
  refine ⟨_, cx, admits, rfl, .of_room (fun layout => run layout _) (fun _ => by decide) ?_ ends⟩
  exact fun layout below => Nat.le_trans below.2

theorem indented (writes : Writes rule (level + 1) caps family holds) :
    Writes rule level caps (fun layout => indented (family layout)) holds := by
  intro cx admits start value reached ends least
  obtain ⟨between, counted, inside, rfl⟩ := run_indented_eq_ok ends
  obtain ⟨result, after, fit, fact, agrees⟩ := writes cx admits start value between inside
    fun passed member => least passed (mem_trail_indented.mpr ⟨counted, .inr (.inl member)⟩)
  refine ⟨result, after, fit, fact, fun layout => ?_⟩
  rw [run_indented]
  split
  · exact mapped_of_agrees _ (agrees layout)
  next uncounted =>
    refine .inr ⟨fun below => uncounted ?_, .add, by decide, rfl⟩
    have room : start.indent + level + 1 < wordCount := counted
    have narrower : layout.indent ≤ start.indent := below.1
    show layout.indent + level + 1 < wordCount
    omega

theorem inScope (writes : Writes rule level caps family holds) :
    Writes rule level caps (fun layout => inScope (family layout)) holds := by
  intro cx admits start value reached ends least
  obtain ⟨between, inside, rfl⟩ := run_inScope_eq_ok ends
  obtain ⟨result, after, fit, fact, agrees⟩ := writes cx.pushScope admits.push start value between
    inside fun passed member => least passed (mem_trail_inScope.mpr (.inr (.inl member)))
  refine ⟨result, after.popScope, fit.pop, fact, fun layout => ?_⟩
  rw [run_inScope]
  exact mapped_of_agrees _ (agrees layout)

theorem chooseName (reserved : List String) (name : String) :
    Writes rule level caps (fun _ => chooseName reserved name) fun result =>
      ∃ chosen, result = (fun _ => chosen) ∧ Naming.StandsFor name chosen := by
  intro cx admits start _ _ _ _
  cases collides : cx.symbols.collides reserved name with
  | false =>
    exact ⟨_, cx, admits, ⟨name, rfl, .inl rfl⟩, .of_run fun _ => run_chooseName_of_free collides⟩
  | true =>
    let chosen := cx.symbols.substituteFor reserved name
    let message := renameMessage cx.target (name ∈ reserved) name chosen
    refine ⟨_, cx.warn message, ?_, ⟨chosen, rfl, .inr (SymbolTable.substituteFor_eq _ _ _)⟩,
      .of_run fun layout => ?_⟩
    · rw [Context.symbols_warn]
      exact admits
    · rw [← Context.relaid_warn]
      exact run_chooseName_of_collides collides

theorem declare {symbol : Symbol} (fits : rule.Fits caps symbol) :
    Writes rule level caps (fun _ => declare symbol) fun _ => True :=
  change (fun _ _ => rfl) fun _ admits _ => ⟨admits.declare fits, True.intro⟩

theorem declareFor {target : Target} {symbol : Symbol}
    (fits : ∀ chosen, Naming.StandsFor symbol.sourceName chosen →
      rule.Fits caps { symbol with targetName := chosen }) :
    Writes rule level caps (fun _ => declareFor target symbol) fun result =>
      ∃ chosen, result = (fun _ => chosen) ∧ Naming.StandsFor symbol.sourceName chosen := by
  apply (chooseName target.reserved symbol.sourceName).bind
  rintro _ ⟨chosen, rfl, stands⟩
  apply (declare (fits chosen stands)).bind
  intro _ _
  exact done ⟨chosen, rfl, stands⟩

theorem declareFresh {base : String} {type : ValueType}
    (fits : ∀ table : SymbolTable, rule.Fits caps (.scalar (table.freshName base) type)) :
    Writes rule level caps (fun _ => declareFresh base type) fun result =>
      ∃ table : SymbolTable, result = fun _ => table.freshName base := by
  apply symbols.bind
  rintro _ ⟨table, rfl, -⟩
  apply (declare (fits table)).bind
  intro _ _
  exact done ⟨table, rfl⟩

end Writes

end Render

end Retarget
