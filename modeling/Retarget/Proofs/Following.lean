import Retarget.Proofs.Layout

/-!
# One rendering after the model of another

A rendering follows another one if both end in the same context with related values, or in the same
fault.
-/

namespace Retarget

section Following

variable {α β γ δ : Type} {excused : Fault → Prop}

/-- The end of a rendering is that of another one: the same fault, or the same context with a
related value. Only a fault that is excused may stand in the place of another end. -/
inductive Matched (excused : Fault → Prop) (related : α → β → Prop) :
    Except Fault (α × Context) → Except Fault (β × Context) → Prop where
  | given {value : α} {other : β} {after : Context} (fact : related value other) :
      Matched excused related (.ok (value, after)) (.ok (other, after))
  | faulted (fault : Fault) : Matched excused related (.error fault) (.error fault)
  | excused {fault : Fault} (excuse : excused fault) (result : Except Fault (α × Context)) :
      Matched excused related result (.error fault)

theorem Matched.map {related : α → β → Prop}
    {result : Except Fault (α × Context)} {other : Except Fault (β × Context)}
    (matched : Matched excused related result other) (leave : Context → Context) :
    Matched excused related (result.map (Prod.map id leave)) (other.map (Prod.map id leave)) := by
  cases matched with
  | given fact => exact .given fact
  | faulted fault => exact .faulted fault
  | excused excuse _ => exact .excused excuse _

def Follows (excused : Fault → Prop) (related : α → β → Prop) (cx : Context) (first : Render α)
    (second : Render β) : Prop :=
  Matched excused related (first.run cx) (second.run cx)

namespace Follows

variable {related : α → β → Prop} {later : γ → δ → Prop} {cx : Context} {first : Render α}
  {second : Render β}

theorem refl {related : α → α → Prop} (same : ∀ value, related value value) (rendering : Render α) :
    Follows excused related cx rendering rendering := by
  unfold Follows
  cases rendering.run cx with
  | error fault => exact .faulted fault
  | ok reached => exact .given (same reached.1)

theorem pure {value : α} {other : β} (fact : related value other) :
    Follows excused related cx (pure value) (pure other) :=
  Matched.given fact

theorem bind {next : α → Render γ} {other : β → Render δ}
    (begun : Follows excused related cx first second)
    (rest : ∀ value value' after, first.run cx = .ok (value, after) → related value value' →
      Follows excused later after (next value) (other value')) :
    Follows excused later cx (first >>= next) (second >>= other) := by
  unfold Follows at begun ⊢
  rw [Render.run_bind, Render.run_bind]
  generalize ends : first.run cx = result at begun ⊢
  generalize second.run cx = other at begun ⊢
  cases begun with
  | given fact => exact rest _ _ _ ends fact
  | faulted fault => exact .faulted fault
  | excused excuse _ => exact .excused excuse _

theorem after (begin : Render γ) {next : γ → Render α} {other : γ → Render β}
    (rest : ∀ value after, begin.run cx = .ok (value, after) →
      Follows excused related after (next value) (other value)) :
    Follows excused related cx (begin >>= next) (begin >>= other) := by
  refine (refl (fun _ => rfl) begin).bind ?_
  rintro value _ after ends rfl
  exact rest value after ends

theorem inScope (inside : Follows excused related cx.pushScope first second) :
    Follows excused related cx (Render.inScope first) (Render.inScope second) := by
  unfold Follows
  rw [Render.run_inScope, Render.run_inScope]
  exact .map inside _

theorem indented
    (inside : Follows excused related { cx with indent := cx.indent + 1 } first second) :
    Follows excused related cx (Render.indented first) (Render.indented second) := by
  unfold Follows
  rw [Render.run_indented, Render.run_indented]
  split
  · exact .map inside _
  · exact .faulted _

theorem nested {related : List String → List String → Prop} {first second : Render (List String)}
    (inside : Follows excused related { cx with indent := cx.indent + 1 }.pushScope first second) :
    Follows excused related cx (Render.nested first) (Render.nested second) :=
  indented (inScope inside)

end Follows

/-- Results of attempts that are the same refusal or related values. -/
inductive Agree (related : α → β → Prop) : Except Refusal α → Except Refusal β → Prop where
  | given {value : α} {other : β} (fact : related value other) :
      Agree related (.ok value) (.ok other)
  | refused (refusal : Refusal) : Agree related (.error refusal) (.error refusal)

namespace Attempt

variable {related : α → β → Prop} {later : γ → δ → Prop} {cx : Context}

def Follows (excused : Fault → Prop) (related : α → β → Prop) (cx : Context) (first : Attempt α)
    (second : Attempt β) : Prop :=
  Retarget.Follows excused (Agree related) cx first.run second.run

namespace Follows

theorem bind {first : Attempt α} {second : Attempt β} {next : α → Attempt γ} {other : β → Attempt δ}
    (begun : Follows excused related cx first second)
    (rest : ∀ value value' after, first.run.run cx = .ok (.ok value, after) →
      related value value' → Follows excused later after (next value) (other value')) :
    Follows excused later cx (first >>= next) (second >>= other) := by
  refine Retarget.Follows.bind begun fun result result' after run agree => ?_
  cases agree with
  | given fact => exact rest _ _ after run fact
  | refused refusal => exact Retarget.Follows.pure (.refused refusal)

theorem after (begin : Attempt γ) {next : γ → Attempt α} {other : γ → Attempt β}
    (rest : ∀ value after, begin.run.run cx = .ok (.ok value, after) →
      Follows excused related after (next value) (other value)) :
    Follows excused related cx (begin >>= next) (begin >>= other) := by
  refine Retarget.Follows.after begin.run fun result after ends => ?_
  cases result with
  | ok value => exact rest value after ends
  | error refusal => exact Retarget.Follows.pure (.refused refusal)

theorem lift {first : Render α} {second : Render β}
    (follows : Retarget.Follows excused related cx first second) :
    Follows excused related cx (liftM first) (liftM second) :=
  Retarget.Follows.bind follows fun _ _ _ _ fact => .pure (.given fact)

end Follows

end Attempt

end Following

section Layouts

variable {α β : Type} {cx : Context} {holds : α → Prop} {later : β → Prop}

/-- A rendering that leaves the context as it is, with a result that only the settings and the level
of indentation decide; `holds` is said of its value. -/
def LaidOut (cx : Context) (rendering : Render α) (holds : α → Prop) : Prop :=
  ∃ result : Except Fault α, (∀ value, result = .ok value → holds value) ∧
    ∀ start : Context, start.settings = cx.settings → start.indent = cx.indent →
      rendering.run start = result.map fun value => (value, start)

def Render.outcome (rendering : Render α) (cx : Context) : Except Fault α :=
  (rendering.run cx).map Prod.fst

namespace LaidOut

theorem mono {rendering : Render α} {wider : α → Prop} (laidOut : LaidOut cx rendering holds)
    (weaker : ∀ value, holds value → wider value) : LaidOut cx rendering wider := by
  obtain ⟨result, facts, runs⟩ := laidOut
  exact ⟨result, fun value same => weaker value (facts value same), runs⟩

theorem pure {value : α} (fact : holds value) : LaidOut cx (pure value) holds := by
  refine ⟨.ok value, fun _ same => ?_, fun _ _ _ => rfl⟩
  cases same
  exact fact

theorem bind {first : Render α} {next : α → Render β} (begun : LaidOut cx first holds)
    (rest : ∀ value, holds value → LaidOut cx (next value) later) :
    LaidOut cx (first >>= next) later := by
  obtain ⟨result, holdsAll, runs⟩ := begun
  cases result with
  | error fault =>
    refine ⟨.error fault, fun _ same => (by cases same), fun start settings indent => ?_⟩
    rw [Render.run_bind, runs start settings indent]
    rfl
  | ok value =>
    obtain ⟨result, laterAll, runsLater⟩ := rest value (holdsAll value rfl)
    refine ⟨result, laterAll, fun start settings indent => ?_⟩
    rw [Render.run_bind, runs start settings indent]
    exact runsLater start settings indent

theorem settings : LaidOut cx Render.settings (· = cx.settings) := by
  refine ⟨.ok cx.settings, fun _ same => ?_, fun start settings _ => ?_⟩
  · cases same
    rfl
  · rw [← settings]
    rfl

theorem line (text : String) :
    LaidOut cx (Render.line text) (· = Row.line cx.layout { depth := 0, text }) := by
  refine ⟨cx.line text, fun _ same => ?_, fun start settings indent => ?_⟩
  · have runs := Render.run_line_eq_ok.mpr ⟨same, rfl⟩
    rw [Render.run_line_eq] at runs
    split at runs <;> cases runs
    rfl
  · have same : start.line text = cx.line text := by
      unfold Context.line
      rw [settings, indent]
    rw [← same, Render.line, Render.run_bind, Render.run_get]
    exact Render.run_ofExcept _ start

theorem lines (texts : List String) (spoken : String → String) :
    LaidOut cx (texts.mapM fun text => Render.line (spoken text))
      (· = texts.map fun text => Row.line cx.layout { depth := 0, text := spoken text }) := by
  induction texts with
  | nil => exact .pure rfl
  | cons text texts ih =>
    rw [List.mapM_cons]
    refine (line _).bind ?_
    rintro _ rfl
    refine ih.bind ?_
    rintro _ rfl
    exact .pure rfl

theorem run_eq {rendering : Render α} (laidOut : LaidOut cx rendering holds) {start : Context}
    (settings : start.settings = cx.settings) (indent : start.indent = cx.indent) :
    rendering.run start = (rendering.outcome cx).map fun value => (value, start) := by
  obtain ⟨result, _, runs⟩ := laidOut
  rw [runs start settings indent, Render.outcome, runs cx rfl rfl]
  cases result <;> rfl

theorem holds_outcome {rendering : Render α} (laidOut : LaidOut cx rendering holds) {value : α}
    (comes : rendering.outcome cx = .ok value) : holds value := by
  obtain ⟨result, facts, runs⟩ := laidOut
  rw [Render.outcome, runs cx rfl rfl] at comes
  cases result with
  | error fault => cases comes
  | ok found =>
    cases comes
    exact facts found rfl

theorem settle_run {target : Target} {source : Option String} {stmt : Stmt}
    {rendering : Render (List String)} {holds : List String → Prop}
    (laidOut : LaidOut cx rendering holds) (some : ∀ lines, holds lines → lines ≠ [])
    {start : Context} (settings : start.settings = cx.settings)
    (indent : start.indent = cx.indent) :
    (Render.settle target source stmt (liftM rendering)).run start =
      (rendering.outcome cx).map fun lines => (lines, start) := by
  have attempted : (liftM rendering : Attempt (List String)).run.run start =
      (rendering.outcome cx).map fun lines => (.ok lines, start) := by
    show Render.run (rendering >>= fun lines => Pure.pure (Except.ok lines)) start = _
    rw [Render.run_bind, laidOut.run_eq settings indent]
    cases rendering.outcome cx <;> rfl
  rw [Render.settle, Render.run_bind, attempted]
  cases comes : rendering.outcome cx with
  | error fault => rfl
  | ok lines =>
    have given : (!lines.isEmpty || Render.mayBeEmpty start.settings stmt) = true := by
      rw [List.isEmpty_eq_false_iff.mpr (some lines (laidOut.holds_outcome comes))]
      rfl
    show Render.run
      (if !lines.isEmpty || Render.mayBeEmpty start.settings stmt then _ else _) _ = _
    rw [if_pos given]
    rfl

end LaidOut

end Layouts

end Retarget
