import Retarget.Render.Settle

/-!
# Orderly renderings

The renderers of both targets are put together from few kinds of steps: they read the context, give
warnings, take capabilities into use, declare names that were chosen for the target, open scopes and
levels of indentation that they leave again, and give up on a statement. The trail of a rendering
lists every context that it comes through.
-/

namespace Retarget.Render

variable {cx after passed : Context}

variable {α β : Type}

variable {value : α} {body : Render α}

/-- The contexts that the changes of a rendering lead to, in order and up to a fault. -/
def trail : Render α → Context → List Context
  | done _, _ => []
  | halt _, _ => []
  | read next, cx => (next cx).trail cx
  | update change next, cx => change cx :: next.trail (change cx)
  | giveUp next, cx => next.trail cx

@[simp] theorem run_pure (value : α) (cx : Context) :
    (pure value : Render α).run cx = .ok (value, cx) := rfl

@[simp] theorem run_get (cx : Context) : (get : Render Context).run cx = .ok (cx, cx) := rfl

@[simp] theorem run_ofExcept (result : Except Fault α) (cx : Context) :
    (ofExcept result).run cx = result.map fun value => (value, cx) := by
  cases result <;> rfl

@[simp] theorem run_bind (first : Render α) (rest : α → Render β) (cx : Context) :
    (first >>= rest).run cx =
      (first.run cx).bind fun reached => (rest reached.1).run reached.2 := by
  change (first.bind rest).run cx = _
  induction first generalizing cx with
  | done value => rfl
  | halt fault => rfl
  | read next ih => exact ih cx cx
  | update change next ih => exact ih (change cx)
  | giveUp next ih => exact ih cx

theorem bind_eq_ok {first : Render α} {rest : α → Render β} {value : β} :
    (first >>= rest).run cx = .ok (value, after) ↔
      ∃ middle between, first.run cx = .ok (middle, between) ∧
        (rest middle).run between = .ok (value, after) := by
  rw [run_bind]
  cases first.run cx with
  | error fault => simp [Except.bind]
  | ok reached =>
    obtain ⟨middle, between⟩ := reached
    constructor
    · intro ends
      exact ⟨middle, between, rfl, ends⟩
    · rintro ⟨_, _, same, ends⟩
      cases same
      exact ends

/-- Whether two results agree can be found out by comparing them. -/
instance exceptDecidableEq {ε α : Type} [DecidableEq ε] [DecidableEq α] : DecidableEq (Except ε α)
  | .ok a, .ok b => decidable_of_iff (a = b) (by simp)
  | .error a, .error b => decidable_of_iff (a = b) (by simp)
  | .ok _, .error _ => .isFalse nofun
  | .error _, .ok _ => .isFalse nofun

instance {ends : α → Context → Prop} [∀ value after, Decidable (ends value after)]
    (rendering : Render α) (cx : Context) :
    Decidable (∃ value after, rendering.run cx = .ok (value, after) ∧ ends value after) :=
  match reached : rendering.run cx with
  | .error _ => .isFalse fun ⟨_, _, same, _⟩ => nomatch same
  | .ok (value, after) =>
    decidable_of_iff (ends value after)
      ⟨fun holds => ⟨value, after, rfl, holds⟩,
        fun ⟨_, _, same, holds⟩ => by cases same; exact holds⟩

/-- A sequence comes through the contexts of its first part and then those of its second part. -/
theorem mem_trail_bind {first : Render α} {rest : α → Render β} :
    passed ∈ (first >>= rest).trail cx ↔
      passed ∈ first.trail cx ∨
        ∃ middle between, first.run cx = .ok (middle, between) ∧
          passed ∈ (rest middle).trail between := by
  change passed ∈ (first.bind rest).trail cx ↔ _
  induction first generalizing cx with
  | done value =>
    constructor
    · intro member
      exact .inr ⟨value, cx, rfl, member⟩
    · rintro (absent | ⟨_, _, same, member⟩)
      · cases absent
      · cases same
        exact member
  | halt fault => simp [Render.bind, trail, run]
  | read next ih => exact ih cx
  | update change next ih =>
    simp only [Render.bind, trail, run, List.mem_cons, ih, or_assoc]
  | giveUp next ih => exact ih

theorem mem_trail_of_run {rendering : Render α}
    (ends : rendering.run cx = .ok (value, after)) : after ∈ cx :: rendering.trail cx := by
  induction rendering generalizing cx with
  | done result =>
    simp only [run, Except.ok.injEq, Prod.mk.injEq] at ends
    simp [ends.2]
  | halt fault => simp [run] at ends
  | read next ih => exact ih cx ends
  | update change next ih => exact List.mem_cons_of_mem _ (ih ends)
  | giveUp next ih => exact ih ends

theorem run_indented (body : Render α) (cx : Context) : (indented body).run cx =
    if cx.indent + 1 < wordCount then
      (body.run { cx with indent := cx.indent + 1 }).map
        (Prod.map id fun left => { left with indent := left.indent - 1 })
    else .error .add := by
  change ((ofExcept (addWords cx.indent 1) >>= _).run cx : Except Fault (α × Context)) = _
  rw [run_bind, run_ofExcept, addWords]
  split
  · change ((body >>= _).run { cx with indent := cx.indent + 1 } : Except Fault (α × Context)) = _
    rw [run_bind]
    cases body.run { cx with indent := cx.indent + 1 } <;> rfl
  · rfl

theorem run_inScope (body : Render α) (cx : Context) : (inScope body).run cx =
    (body.run cx.pushScope).map (Prod.map id Context.popScope) := by
  change ((body >>= _).run cx.pushScope : Except Fault (α × Context)) = _
  rw [run_bind]
  cases body.run cx.pushScope <;> rfl

theorem map_eq_ok {result : Except Fault (α × Context)} {leave : Context → Context}
    (ends : result.map (Prod.map id leave) = .ok (value, after)) :
    ∃ between, result = .ok (value, between) ∧ after = leave between := by
  cases result with
  | error fault => cases ends
  | ok reached =>
    cases ends
    exact ⟨_, rfl, rfl⟩

theorem run_indented_eq_ok (ends : (indented body).run cx = .ok (value, after)) :
    ∃ between, cx.indent + 1 < wordCount ∧
      body.run { cx with indent := cx.indent + 1 } = .ok (value, between) ∧
      after = { between with indent := between.indent - 1 } := by
  rw [run_indented] at ends
  split at ends
  next fits =>
    obtain ⟨between, inside, left⟩ := map_eq_ok ends
    exact ⟨between, fits, inside, left⟩
  next => cases ends

theorem run_inScope_eq_ok (ends : (inScope body).run cx = .ok (value, after)) :
    ∃ between, body.run cx.pushScope = .ok (value, between) ∧ after = between.popScope := by
  rw [run_inScope] at ends
  exact map_eq_ok ends

theorem mem_trail_left {leave : Context → Context} :
    passed ∈ (do
      let value ← body
      change leave
      return value).trail cx ↔
      passed ∈ body.trail cx ∨
        ∃ value between, body.run cx = .ok (value, between) ∧ passed = leave between :=
  mem_trail_bind.trans (or_congr_right (exists_congr fun _ => exists_congr fun _ =>
    and_congr_right fun _ => List.mem_singleton))

theorem mem_trail_indented : passed ∈ (indented body).trail cx ↔ cx.indent + 1 < wordCount ∧
    (passed = { cx with indent := cx.indent + 1 } ∨
      passed ∈ body.trail { cx with indent := cx.indent + 1 } ∨
      ∃ value between, body.run { cx with indent := cx.indent + 1 } = .ok (value, between) ∧
        passed = { between with indent := between.indent - 1 }) := by
  change passed ∈ (ofExcept (addWords cx.indent 1) >>= _ : Render α).trail cx ↔ _
  by_cases counted : cx.indent + 1 < wordCount
  · rw [addWords, if_pos counted]
    exact (List.mem_cons.trans (or_congr_right mem_trail_left)).trans (and_iff_right counted).symm
  · rw [addWords, if_neg counted]
    exact iff_of_false (fun member => by cases member) fun inside => counted inside.1

theorem mem_trail_inScope : passed ∈ (inScope body).trail cx ↔
    passed = cx.pushScope ∨ passed ∈ body.trail cx.pushScope ∨
      ∃ value between, body.run cx.pushScope = .ok (value, between) ∧
        passed = between.popScope :=
  List.mem_cons.trans (or_congr_right mem_trail_left)

theorem bind_done {α : Type} (rendering : Render α) : rendering.bind done = rendering := by
  induction rendering with
  | done | halt => rfl
  | read next ih => exact congrArg read (funext ih)
  | update change next ih => exact congrArg (update change) ih
  | giveUp next ih => exact congrArg giveUp ih

theorem bind_bind {α β γ : Type} (rendering : Render α) (next : α → Render β)
    (last : β → Render γ) :
    (rendering.bind next).bind last = rendering.bind fun value => (next value).bind last := by
  induction rendering with
  | done | halt => rfl
  | read next ih => exact congrArg read (funext ih)
  | update change next ih => exact congrArg (update change) ih
  | giveUp next ih => exact congrArg giveUp ih

instance lawfulMonad : LawfulMonad Render :=
  .mk' Render bind_done (fun _ _ => rfl) bind_bind

end Retarget.Render

namespace Retarget

theorem run_of_lift {α : Type} {rendering : Render α} {value : α} {cx after : Context}
    (ends : (liftM rendering : Attempt α).run.run cx = .ok (.ok value, after)) :
    rendering.run cx = .ok (value, after) := by
  obtain ⟨_, _, begun, ends⟩ := Render.bind_eq_ok.mp ends
  cases ends
  exact begun

abbrev Trial (ε : Type) := ExceptT ε Render

theorem Trial.bind_eq_ok {ε α β : Type} {first : Trial ε α} {rest : α → Trial ε β}
    {cx after : Context} {value : β} :
    (first >>= rest).run.run cx = .ok (.ok value, after) ↔
      ∃ middle between, first.run.run cx = .ok (.ok middle, between) ∧
        (rest middle).run.run between = .ok (.ok value, after) := by
  constructor
  · intro ends
    obtain ⟨result, between, begun, ends⟩ := Render.bind_eq_ok.mp ends
    cases result with
    | error error => cases ends
    | ok middle => exact ⟨middle, between, begun, ends⟩
  · rintro ⟨middle, between, begun, ends⟩
    exact Render.bind_eq_ok.mpr ⟨.ok middle, between, begun, ends⟩

/-! ## Kinds of steps -/

/-- How far the declarations of a rendering reach. -/
inductive Extent where
  | contained
  | declaring
  deriving DecidableEq

/-- The next `room` levels of indentation can be counted and written. -/
def Context.HasRoom (room : Nat) (cx : Context) : Prop :=
  cx.indent + room < wordCount ∧ (cx.indent + room) * cx.settings.indentWidth ≤ maxTextSize

theorem Context.HasRoom.of_eq {room : Nat} {cx other : Context} (fits : cx.HasRoom room)
    (indent : other.indent = cx.indent) (settings : other.settings = cx.settings) :
    other.HasRoom room := by
  unfold HasRoom
  rw [indent, settings]
  exact fits

theorem Context.HasRoom.line_eq_ok {room : Nat} {cx : Context} (fits : cx.HasRoom room)
    (text : String) : ∃ line, cx.line text = .ok line := by
  obtain ⟨-, written⟩ := fits
  have shorter : cx.indent * cx.settings.indentWidth ≤ maxTextSize :=
    Nat.le_trans (Nat.mul_le_mul_right _ (Nat.le_add_right _ room)) written
  have counted : cx.indent * cx.settings.indentWidth < wordCount :=
    Nat.lt_of_le_of_lt shorter (by decide)
  simp only [Context.line, mulWords, if_pos counted, spaces, bind, Except.bind, if_pos shorter]
  exact ⟨_, rfl⟩

namespace Render

variable {may : Prop} {α β : Type} {target : Target} {room : Nat} {extent : Extent}

/-- Whether a warning tells of a statement that lost its own rendering. -/
def isNotice (message : String) : Bool :=
  Text.endsIn "; left a placeholder" message ||
    Text.contains "; used degraded translation: " message

/-- However a rendering ends, its result is excused or a warning tells of a lost statement. -/
def Told (excused : α → Prop) (rendering : Render α) : Prop :=
  ∀ cx value after, rendering.run cx = .ok (value, after) →
    excused value ∨ ∃ message ∈ after.warnings, isNotice message

/-- A rendering for a target that is put together from the steps above; `excused` are the results
that excuse giving up. There is a fault only where there may be one, as long as the context has room
for the levels of indentation. -/
inductive Steps (may : Prop) (target : Target) :
    {α : Type} → Nat → Extent → (α → Prop) → Render α → Prop where
  | done {α : Type} {room : Nat} {extent : Extent} {excused : α → Prop} (value : α) :
      Steps may target room extent excused (.done value)
  | halt {α : Type} {room : Nat} {extent : Extent} {excused : α → Prop} (fault : Fault)
      (allowed : may) : Steps may target room extent excused (.halt fault)
  | read {α : Type} {room : Nat} {extent : Extent} {excused : α → Prop}
      {next : Context → Render α}
      (steps : ∀ cx, may ∨ cx.HasRoom room → Steps may target room extent excused (next cx)) :
      Steps may target room extent excused (.read next)
  | warn {room : Nat} {extent : Extent} {excused : Unit → Prop} (message : String) :
      Steps may target room extent excused (Render.warn message)
  | require {room : Nat} {extent : Extent} {excused : Unit → Prop} (capability : Capability) :
      Steps may target room extent excused (Render.require capability)
  | declareFor {room : Nat} {excused : String → Prop} (symbol : Symbol) :
      Steps may target room .declaring excused (Render.declareFor target symbol)
  | declareFresh {room : Nat} {excused : String → Prop} (base : String) (type : ValueType)
      (free : ∀ table : SymbolTable, table.freshName base ∉ target.reserved) :
      Steps may target room .declaring excused (Render.declareFresh base type)
  | indented {α : Type} {room : Nat} {extent : Extent} {excused : α → Prop} {body : Render α}
      (fits : may ∨ 1 ≤ room) (steps : Steps may target (room - 1) extent excused body) :
      Steps may target room extent excused (Render.indented body)
  | inScope {α : Type} {room : Nat} {extent : Extent} {excused : α → Prop} {body : Render α}
      (steps : Steps may target room .declaring excused body) :
      Steps may target room extent excused (Render.inScope body)
  | giveUp {α : Type} {room : Nat} {extent : Extent} {excused inner : α → Prop} {rest : Render α}
      (steps : Steps may target room extent inner rest) (told : Told excused rest) :
      Steps may target room extent excused (.giveUp rest)
  | bind {α β : Type} {room : Nat} {extent : Extent} {inner : α → Prop} {excused : β → Prop}
      {first : Render α} {rest : α → Render β}
      (firstSteps : Steps may target room extent inner first)
      (restSteps : ∀ value, Steps may target room extent excused (rest value))
      (told : ∀ value, inner value → Told excused (rest value)) :
      Steps may target room extent excused (first >>= rest)

theorem Steps.declaring {excused : α → Prop} {rendering : Render α}
    (steps : Steps may target room extent excused rendering) :
    Steps may target room .declaring excused rendering := by
  induction steps with
  | done value => exact .done value
  | halt fault allowed => exact .halt fault allowed
  | read _ ih => exact .read ih
  | warn message => exact .warn message
  | require capability => exact .require capability
  | declareFor symbol => exact .declareFor symbol
  | declareFresh base type free => exact .declareFresh base type free
  | indented fits _ ih => exact .indented fits ih
  | inScope steps _ => exact .inScope steps
  | giveUp _ told ih => exact .giveUp ih told
  | bind _ _ told firstIh restIh => exact .bind firstIh restIh told

/-- A rendering made of the steps above that tells of each statement it gives up. -/
def Steady (may : Prop) (target : Target) (room : Nat) (extent : Extent) (rendering : Render α) :
    Prop :=
  Steps may target room extent (fun _ => False) rendering

/-- A rendering that is steady except for faults. -/
abbrev Orderly (target : Target) (extent : Extent) (rendering : Render α) : Prop :=
  rendering.Steady True target 0 extent

namespace Steady

theorem warn (message : String) : Steady may target room extent (Render.warn message) :=
  Steps.warn message

theorem require (capability : Capability) :
    Steady may target room extent (Render.require capability) :=
  Steps.require capability

theorem declareFor (symbol : Symbol) :
    Steady may target room .declaring (Render.declareFor target symbol) :=
  Steps.declareFor symbol

theorem bind {first : Render α} {rest : α → Render β}
    (begun : Steady may target room extent first)
    (next : ∀ value, Steady may target room extent (rest value)) :
    Steady may target room extent (first >>= rest) :=
  Steps.bind begun next fun _ excused => excused.elim

theorem get : Steady may target room extent (get : Render Context) :=
  Steps.read fun cx _ => .done cx

theorem symbols : Steady may target room extent Render.symbols :=
  get.bind fun _ => .done _

theorem settings : Steady may target room extent Render.settings :=
  get.bind fun _ => .done _

theorem ofExcept {result : Except Fault α} (allowed : may ∨ ∃ value, result = .ok value) :
    Steady may target room extent (Render.ofExcept result) := by
  cases result with
  | ok value => exact .done value
  | error fault => exact .halt fault (allowed.resolve_right nofun)

theorem line (text : String) : Steady may target room extent (Render.line text) :=
  Steps.read fun _ fits => ofExcept (fits.imp_right (·.line_eq_ok text))

theorem oneLine (text : String) : Steady may target room extent (Render.oneLine text) :=
  (line text).bind fun _ => .done _

theorem nested {body : Render (List String)} (fits : may ∨ 1 ≤ room)
    (steady : Steady may target (room - 1) .declaring body) :
    Steady may target room extent (Render.nested body) :=
  .indented fits (.inScope steady)

theorem mapM {f : α → Render β} (steady : ∀ x, Steady may target room extent (f x)) (xs : List α) :
    Steady may target room extent (xs.mapM f) := by
  induction xs with
  | nil => exact .done []
  | cons x xs ih =>
    rw [List.mapM_cons]
    exact (steady x).bind fun _ => ih.bind fun _ => .done _

theorem concatMap {f : α → Render (List String)} (steady : ∀ x, Steady may target room extent (f x))
    (xs : List α) : Steady may target room extent (Render.concatMap f xs) := by
  induction xs with
  | nil => exact .done []
  | cons x xs ih => exact (steady x).bind fun _ => ih.bind fun _ => .done _

theorem commentLines (mark text : String) :
    Steady may target room extent (Render.commentLines mark text) :=
  mapM (fun _ => line _) _

theorem warnOpenCases (number : Nat) (cases : List Case) :
    Steady may target room extent (Render.warnOpenCases number cases) := by
  fun_induction Render.warnOpenCases number cases with
  | case1 => exact .done ()
  | case2 => exact .done ()
  | case3 number case rest _ _ _ ih => exact (Steady.warn _).bind fun _ => ih
  | case4 number case rest _ _ _ ih => exact ih

theorem warnFallthrough (cases : List Case) :
    Steady may target room extent (Render.warnFallthrough cases) := by
  refine (warnOpenCases 1 cases).bind fun _ => ?_
  split
  · exact .warn _
  · exact .done ()

end Steady

theorem Orderly.nested {body : Render (List String)} (orderly : Orderly target .declaring body) :
    Orderly target extent (Render.nested body) :=
  Steady.nested (.inl trivial) orderly

end Render

namespace Attempt

variable {may : Prop} {α β : Type} {target : Target} {room : Nat} {extent : Extent}

def Refused (result : Except Refusal α) : Prop :=
  ∃ refusal, result = .error refusal

def Steady (may : Prop) (target : Target) (room : Nat) (extent : Extent) (attempt : Attempt α) :
    Prop :=
  Render.Steps may target room extent Refused attempt.run

abbrev Orderly (target : Target) (extent : Extent) (attempt : Attempt α) : Prop :=
  attempt.Steady True target 0 extent

namespace Steady

theorem pure (value : α) : Steady may target room extent (pure value) :=
  Render.Steps.done _

theorem bind {first : Attempt α} {rest : α → Attempt β}
    (begun : Steady may target room extent first)
    (next : ∀ value, Steady may target room extent (rest value)) :
    Steady may target room extent (first >>= rest) := by
  refine Render.Steps.bind begun ?_ ?_
  · intro result
    cases result with
    | ok value => exact next value
    | error refusal => exact .done _
  · -- A refusal of the first part is the refusal of the whole.
    rintro _ ⟨refusal, rfl⟩ cx result after ends
    cases ends
    exact .inl ⟨refusal, rfl⟩

theorem lift {rendering : Render α} (orderly : rendering.Steady may target room extent) :
    Steady may target room extent (liftM rendering) :=
  Render.Steps.bind orderly (fun _ => .done _) fun _ excused => excused.elim

theorem refuse (refusal : Refusal) :
    Steady may target room extent (refuse refusal : Attempt α) := by
  refine .giveUp (@Render.Steps.done may target _ _ _ Refused (.error refusal)) ?_
  intro cx result after ends
  cases ends
  exact .inl ⟨refusal, rfl⟩

theorem ofExcept {result : Except Fault α} (allowed : may ∨ ∃ value, result = .ok value) :
    Steady may target room extent (Attempt.ofExcept result) :=
  lift (.ofExcept allowed)

theorem afterExcept {result : Except Fault α} {rest : α → Attempt β}
    (allowed : may ∨ ∃ value, result = .ok value)
    (next : ∀ value, result = .ok value → Steady may target room extent (rest value)) :
    Steady may target room extent (Attempt.ofExcept result >>= rest) := by
  cases result with
  | ok value => exact next value rfl
  | error fault => exact .halt fault (allowed.resolve_right nofun)

theorem symbols : Steady may target room extent (liftM Render.symbols) :=
  lift .symbols

theorem line (text : String) : Steady may target room extent (liftM (Render.line text)) :=
  lift (.line text)

theorem oneLine (text : String) : Steady may target room extent (liftM (Render.oneLine text)) :=
  lift (.oneLine text)

theorem warn (message : String) : Steady may target room extent (liftM (Render.warn message)) :=
  lift (.warn message)

theorem require (capability : Capability) :
    Steady may target room extent (liftM (Render.require capability)) :=
  lift (.require capability)

theorem declaring {attempt : Attempt α} (orderly : Steady may target room extent attempt) :
    Steady may target room .declaring attempt :=
  Render.Steps.declaring orderly

theorem mapM {f : α → Attempt β} (steady : ∀ x, Steady may target room extent (f x)) (xs : List α) :
    Steady may target room extent (xs.mapM f) := by
  induction xs with
  | nil => exact pure []
  | cons x xs ih =>
    rw [List.mapM_cons]
    exact (steady x).bind fun _ => ih.bind fun _ => pure _

end Steady

theorem Orderly.ofExcept (result : Except Fault α) :
    Orderly target extent (Attempt.ofExcept result) :=
  Steady.ofExcept (.inl trivial)

end Attempt

end Retarget
