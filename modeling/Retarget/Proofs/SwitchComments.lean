import Retarget.Proofs.CommentLines
import Retarget.Proofs.PythonStmtWriting
import Retarget.Proofs.SwitchReading
import Retarget.Proofs.SwitchScope

/-!
# Comments in the cases of a switch

What becomes of a switch when a comment is added to the body of one of its cases.
-/

namespace Retarget

open Case (mk)
open List (all_append any_append any_cons append_nil cons_append cons_ne_nil length length_append)
open Render (commentText line run_bind settle)

variable {labels : List SwitchLabel} {body : List Stmt} {start : Context} {discriminant : Expr}
  {arm other : Arm}

section Bodies

variable {before after : List Stmt} {comment : Comment}

variable {later : List Case}

/-- A comment between the two parts of a case's body is not taken for the end of the case. -/
def Harmless (before after : List Stmt) (later : List Case) : Prop :=
  after ≠ [] ∨ endsWithJump before = false ∨ (later = [] ∧ before.getLast?.any Stmt.isBreak = false)

theorem withoutFinalBreak_append (later : after ≠ []) :
    withoutFinalBreak (before ++ after) = before ++ withoutFinalBreak after := by
  induction before with
  | nil => rfl
  | cons s before ih =>
    have more : before ++ after ≠ [] := by simp [later]
    rw [cons_append, withoutFinalBreak_cons more, ih, cons_append]

theorem Harmless.notBreak (harmless : Harmless before after later) :
    after ≠ [] ∨ before.getLast?.any Stmt.isBreak = false := by
  obtain more | open_ | ⟨_, other⟩ := harmless
  · exact .inl more
  · refine .inr (Bool.eq_false_iff.mpr fun leaves => ?_)
    obtain ⟨last, found, isBreak⟩ := (Option.any_eq_true _ _).mp leaves
    have jumps : endsWithJump before = true :=
      (Option.any_eq_true _ _).mpr ⟨last, found, isJump_of_isBreak isBreak⟩
    rw [jumps] at open_
    cases open_
  · exact .inr other

theorem arm_insert (labels : List SwitchLabel)
    (harmless : after ≠ [] ∨ before.getLast?.any Stmt.isBreak = false) (comment : Comment) :
    ∃ first second, (mk labels (before ++ after)).arm.body = first ++ second ∧
      (mk labels (before ++ .comment comment :: after)).arm.body =
        first ++ .comment comment :: second := by
  have arm (body : List Stmt) : (mk labels body).arm.body = withoutFinalBreak body := rfl
  rw [arm, arm, withoutFinalBreak_append (cons_ne_nil _ _)]
  by_cases last : after = []
  · subst last
    have other : before.getLast?.any Stmt.isBreak = false :=
      harmless.resolve_left fun more => more rfl
    refine ⟨before, [], ?_, rfl⟩
    rw [append_nil, withoutFinalBreak, if_neg (by simp [other])]
  · exact ⟨before, withoutFinalBreak after, withoutFinalBreak_append last,
      congrArg _ (withoutFinalBreak_cons last)⟩

theorem endsWithJump_insert (harmless : after ≠ [] ∨ endsWithJump before = false) :
    endsWithJump (before ++ .comment comment :: after) = endsWithJump (before ++ after) := by
  by_cases last : after = []
  · subst last
    have open_ : endsWithJump before = false := harmless.resolve_left fun more => more rfl
    rw [append_nil, open_]
    simp [endsWithJump, Stmt.isJump]
  · obtain ⟨first, rest, rfl⟩ := List.exists_cons_of_ne_nil last
    unfold endsWithJump
    rw [List.getLast?_append_of_ne_nil _ (cons_ne_nil _ _),
      List.getLast?_append_of_ne_nil _ (cons_ne_nil _ _), List.getLast?_cons_cons]

theorem fallthroughWarnings_insert (harmless : Harmless before after later)
    (earlier : List Case) :
    fallthroughWarnings (earlier ++ .mk labels (before ++ .comment comment :: after) :: later) =
      fallthroughWarnings (earlier ++ .mk labels (before ++ after) :: later) := by
  have warned : openCaseWarnings 1 (earlier ++ .mk labels (before ++ .comment comment :: after) ::
      later) = openCaseWarnings 1 (earlier ++ .mk labels (before ++ after) :: later) := by
    obtain ⟨_, _, _, same⟩ := openCaseWarnings_append 1 earlier later
    rw [same, same, Case.body, Case.body]
    obtain follows | open_ | ⟨last, _⟩ := harmless
    · rw [endsWithJump_insert (.inl follows)]
    · rw [endsWithJump_insert (.inr open_)]
    · simp only [last, true_or]
  have breaks : blockBreaksOut (mk labels (before ++ .comment comment :: after)).arm.body =
      blockBreaksOut (mk labels (before ++ after)).arm.body := by
    obtain ⟨first, second, plain, commented⟩ := arm_insert labels harmless.notBreak comment
    rw [plain, commented, blockBreaksOut_eq, blockBreaksOut_eq, any_append,
      any_append, any_cons]
    rfl
  rw [fallthroughWarnings, fallthroughWarnings, warned, any_append,
    any_append, any_cons, any_cons, breaks]

/-- A comment after everything else keeps a final `break` from being left out. -/
theorem withoutFinalBreak_comment (body : List Stmt) (comment : Comment) :
    withoutFinalBreak (body ++ [.comment comment]) = body ++ [.comment comment] := by
  rw [withoutFinalBreak_append (cons_ne_nil _ _)]
  rfl

theorem length_fallthroughWarnings (more : later ≠ [])
    (jumps : endsWithJump body = true) (earlier : List Case) :
    (fallthroughWarnings (earlier ++ .mk labels body :: later)).length <
      (fallthroughWarnings
        (earlier ++ .mk labels (body ++ [.comment comment]) :: later)).length := by
  have open_ : endsWithJump (body ++ [.comment comment]) = false := by
    simp [endsWithJump, Stmt.isJump]
  have breaks : blockBreaksOut (mk labels body).arm.body = true →
      blockBreaksOut (mk labels (body ++ [.comment comment])).arm.body = true := by
    show blockBreaksOut (withoutFinalBreak body) = true →
      blockBreaksOut (withoutFinalBreak (body ++ [.comment comment])) = true
    simp only [withoutFinalBreak_comment, blockBreaksOut_eq, List.any_eq_true]
    rintro ⟨s, member, breaks⟩
    exact ⟨s, List.mem_append_left _ (withoutFinalBreak_subset body member), breaks⟩
  have nested : (earlier ++ .mk labels body :: later).any
        (fun case => blockBreaksOut case.arm.body) = true →
      (earlier ++ .mk labels (body ++ [.comment comment]) :: later).any
        (fun case => blockBreaksOut case.arm.body) = true := by
    rw [any_append, any_append, any_cons, any_cons, Bool.or_eq_true,
      Bool.or_eq_true, Bool.or_eq_true, Bool.or_eq_true]
    exact Or.imp_right (Or.imp_left breaks)
  have longer :
      (openCaseWarnings 1 (earlier ++ .mk labels (body ++ [.comment comment]) :: later)).length =
      (openCaseWarnings 1 (earlier ++ .mk labels body :: later)).length + 1 := by
    obtain ⟨first, message, last, same⟩ := openCaseWarnings_append 1 earlier later
    simp [same, Case.body, more, jumps, open_]
    omega
  rw [fallthroughWarnings, fallthroughWarnings, length_append, length_append, longer]
  by_cases some : (earlier ++ .mk labels body :: later).any
      (fun case => blockBreaksOut case.arm.body) = true
  · rw [if_pos some, if_pos (nested some)]
    simp
  · rw [if_neg some, List.length_nil]
    omega

theorem harmless_iff (earlier : List Case) : Harmless before after later ↔
      fallthroughWarnings (earlier ++ .mk labels (before ++ .comment comment :: after) :: later) =
        fallthroughWarnings (earlier ++ .mk labels (before ++ after) :: later) ∧
      ∃ first second, (mk labels (before ++ after)).arm.body = first ++ second ∧
        (mk labels (before ++ .comment comment :: after)).arm.body =
          first ++ .comment comment :: second := by
  constructor
  · intro harmless
    exact ⟨fallthroughWarnings_insert harmless earlier, arm_insert labels harmless.notBreak comment⟩
  · rintro ⟨warnings, first, second, plain, commented⟩
    by_cases last : after = []
    · subst last
      refine .inr ?_
      cases jumps : endsWithJump before with
      | false => exact .inl rfl
      | true =>
        refine .inr ⟨?_, ?_⟩
        · refine Classical.byContradiction fun more => ?_
          have longer : (fallthroughWarnings (earlier ++ .mk labels before :: later)).length <
              (fallthroughWarnings
                (earlier ++ .mk labels (before ++ [.comment comment]) :: later)).length :=
            length_fallthroughWarnings more jumps earlier
          rw [warnings, append_nil] at longer
          exact Nat.lt_irrefl _ longer
        · refine Bool.eq_false_iff.mpr fun leaves => ?_
          -- A final `break` is left out of the one body and kept in the other.
          have kept : before ++ [.comment comment] = first ++ .comment comment :: second :=
            (withoutFinalBreak_comment before comment).symm.trans commented
          have left : before.dropLast = first ++ second := by
            rw [← plain]
            show before.dropLast = withoutFinalBreak (before ++ [])
            rw [append_nil, withoutFinalBreak, if_pos leaves]
          have counted := congrArg length kept
          have countedToo := congrArg length left
          simp only [length_append, List.length_cons, List.length_nil,
            List.length_dropLast] at counted countedToo
          have some : before ≠ [] := by
            rintro rfl
            cases leaves
          have positive := List.length_pos_iff.mpr some
          omega
    · exact .inl last

end Bodies

section Replacing

variable {earlier later : List Case} {case : Case}

theorem fallbackOf_plain (plain : case.isDefault = false) :
    fallbackOf (earlier ++ case :: later) = fallbackOf (earlier ++ later) := by
  simp [fallbackOf, plain]

theorem fallbackOf_hidden (hidden : ¬CaseKept case later) :
    fallbackOf (earlier ++ case :: later) = fallbackOf later := by
  have some : later.filter Case.isDefault ≠ [] := by
    intro none
    exact hidden fun _ other member =>
      Bool.eq_false_iff.mpr (List.filter_eq_nil_iff.mp none other member)
  have split : earlier ++ case :: later = (earlier ++ [case]) ++ later := by simp
  rw [split, fallbackOf, fallbackOf, List.filter_append, List.getLast?_append_of_ne_nil _ some]

theorem isDefault_of_hidden (hidden : ¬CaseKept case later) : case.isDefault = true := by
  cases isDefault : case.isDefault with
  | true => rfl
  | false =>
    refine absurd (fun isToo => ?_) hidden
    exact absurd (isDefault.symm.trans isToo) Bool.false_ne_true

end Replacing

def Enlarged (written : Except Fault (List String)) (lines longer : List String) : Prop :=
  ∃ more first second, written = .ok more ∧ lines = first ++ second ∧
    longer = first ++ more ++ second

def EnlargedBlock (written : Except Fault (List String)) (lines longer : List String) : Prop :=
  Enlarged written lines longer ∧ lines ≠ [] ∧ longer ≠ []

section Enlarging

variable {written : Except Fault (List String)} {lines longer : List String}

theorem Enlarged.append_left (enlarged : Enlarged written lines longer) (before : List String) :
    Enlarged written (before ++ lines) (before ++ longer) := by
  obtain ⟨more, first, second, isWritten, rfl, rfl⟩ := enlarged
  exact ⟨more, before ++ first, second, isWritten, by simp, by simp⟩

theorem Enlarged.append_right (enlarged : Enlarged written lines longer) (after : List String) :
    Enlarged written (lines ++ after) (longer ++ after) := by
  obtain ⟨more, first, second, isWritten, rfl, rfl⟩ := enlarged
  exact ⟨more, first, second ++ after, isWritten, by simp, by simp⟩

theorem Enlarged.cons (enlarged : Enlarged written lines longer) (header : String) :
    EnlargedBlock written (header :: lines) (header :: longer) :=
  ⟨enlarged.append_left [header], cons_ne_nil _ _, cons_ne_nil _ _⟩

theorem EnlargedBlock.append_left (enlarged : EnlargedBlock written lines longer)
    (before : List String) : EnlargedBlock written (before ++ lines) (before ++ longer) := by
  obtain ⟨enlarged, some, someLonger⟩ := enlarged
  exact ⟨enlarged.append_left before, List.append_ne_nil_of_right_ne_nil before some,
    List.append_ne_nil_of_right_ne_nil before someLonger⟩

theorem EnlargedBlock.append_right (enlarged : EnlargedBlock written lines longer)
    (after : List String) : EnlargedBlock written (lines ++ after) (longer ++ after) := by
  obtain ⟨enlarged, some, someLonger⟩ := enlarged
  exact ⟨enlarged.append_right after, List.append_ne_nil_of_left_ne_nil some after,
    List.append_ne_nil_of_left_ne_nil someLonger after⟩

end Enlarging

/-- A rendering gives the lines of another one with the written ones added at one place. It may end
in a fault of its own only if that is the one that keeps them from being written. -/
def Adds (written : Except Fault (List String)) (cx : Context)
    (first second : Render (List String)) : Prop :=
  Follows (fun fault => written = .error fault) (Enlarged written) cx first second

/-- An attempt gives the lines of another one with the written ones added at one place. -/
def Attempt.Adds (written : Except Fault (List String)) (cx : Context)
    (first second : Attempt (List String)) : Prop :=
  Attempt.Follows (fun fault => written = .error fault) (Enlarged written) cx first second

section Chains

variable {written : Except Fault (List String)} {cx : Context} {target : Target}

/-- Statements with a comment among them that is written alike wherever it stands. -/
theorem stmts_adds {stmts : List Stmt → Render (List String)} {render : Stmt → Attempt (List String)}
    {comment : Comment} {rendering : Render (List String)} {holds : List String → Prop}
    (stmtsCons : ∀ s rest, stmts (s :: rest) = (do
      let first ← settle target none s (render s)
      let others ← stmts rest
      return first ++ others))
    (orderly : ∀ s, (render s).Orderly target s.extent)
    (rendered : render (.comment comment) = liftM rendering)
    (laidOut : LaidOut cx rendering holds) (some : ∀ lines, holds lines → lines ≠ [])
    (first second : List Stmt) (settings : start.settings = cx.settings)
    (indent : start.indent = cx.indent) :
    Adds (rendering.outcome cx) start (stmts (first ++ second))
      (stmts (first ++ .comment comment :: second)) := by
  induction first generalizing start with
  | nil =>
    rw [List.nil_append, List.nil_append, stmtsCons]
    unfold Adds Follows
    rw [run_bind, rendered, laidOut.settle_run some settings indent]
    cases rendering.outcome cx with
    | error fault =>
      refine .excused ?_ _
      rfl
    | ok more =>
      show Matched _ _ _ (Render.run (stmts second >>= _) start)
      rw [run_bind]
      cases (stmts second).run start with
      | error fault => exact .faulted fault
      | ok reached => exact .given ⟨more, [], reached.1, rfl, rfl, rfl⟩
  | cons s rest ih =>
    rw [cons_append, cons_append, stmtsCons, stmtsCons]
    refine .after (settle target none s (render s)) fun lines after ends => ?_
    have frame := (Render.settle_steady none s (orderly s)).frame ends
    refine (ih (frame.settings.trans settings) (frame.indent.trans indent)).bind ?_
    intro others longer _ _ enlarged
    exact .pure (enlarged.append_left lines)

theorem chainLines_adds {link : Bool → Arm → Attempt (List String)}
    (orderly : ∀ isFirst arm, (link isFirst arm).Orderly target .contained)
    (follows : ∀ isFirst start, cx.Alike start →
      Attempt.Follows (fun fault => written = .error fault) (EnlargedBlock written) start
        (link isFirst arm) (link isFirst other))
    (before after : List Arm) (isFirst : Bool) (alike : cx.Alike start) :
    Attempt.Follows (fun fault => written = .error fault) (EnlargedBlock written) start
      (chainLines link isFirst (before ++ arm :: after))
      (chainLines link isFirst (before ++ other :: after)) := by
  induction before generalizing isFirst start with
  | nil =>
    refine (follows isFirst start alike).bind fun lines longer _ _ enlarged => ?_
    refine .after (chainLines link false after) fun others _ _ => ?_
    exact .pure (.given (enlarged.append_right others))
  | cons first before ih =>
    refine .after (link isFirst first) fun lines between ends => ?_
    have alike := alike.trans (.of_run (orderly isFirst first) ends)
    refine (ih false alike).bind fun others longer _ _ enlarged => ?_
    exact .pure (.given (enlarged.append_left lines))

section Switch

variable {value : Attempt String} {link : String → Bool → Arm → Attempt (List String)}
  {finish : List String → Option (List Stmt) → Render (List String)} {earlier later : List Case}
  {before after : List Stmt} {comment : Comment} (harmless : Harmless before after later)

theorem run_chainSwitch_eq (cases : List Case) (cx : Context) :
    (chainSwitch value link finish cases).run.run cx = (do
      let text ← value
      let chain ← chainLines (link text) true (armsOf cases)
      finish chain (fallbackOf cases) : Attempt (List String)).run.run
        ((fallthroughWarnings cases).foldl Context.warn cx) := by
  show ((Render.warnFallthrough cases >>= fun warned => .done (Except.ok warned)) >>= _).run cx = _
  rw [run_bind, run_bind, run_warnFallthrough]
  rfl

include harmless

theorem chainSwitch_adds (kept : CaseKept (.mk labels (before ++ after)) later)
    (reading : value.Orderly target .contained)
    (orderly : ∀ text isFirst arm, (link text isFirst arm).Orderly target .contained)
    (armAdds : ∀ tests first second text isFirst start, cx.Alike start →
      Attempt.Follows (fun fault => written = .error fault) (EnlargedBlock written) start
        (link text isFirst ⟨tests, first ++ second⟩)
        (link text isFirst ⟨tests, first ++ .comment comment :: second⟩))
    (chainAdds : ∀ chain longer fallback start, EnlargedBlock written chain longer →
      Adds written start (finish chain fallback) (finish longer fallback))
    (bodyAdds : ∀ chain first second start, cx.Alike start →
      Adds written start (finish chain (some (first ++ second)))
        (finish chain (some (first ++ .comment comment :: second)))) :
    Attempt.Adds written cx
      (chainSwitch value link finish (earlier ++ .mk labels (before ++ after) :: later))
      (chainSwitch value link finish
        (earlier ++ .mk labels (before ++ .comment comment :: after) :: later)) := by
  obtain ⟨first, second, plain, commented⟩ := arm_insert labels harmless.notBreak comment
  have arm : (mk labels (before ++ after)).arm = ⟨_, first ++ second⟩ :=
    congrArg (Arm.mk _) plain
  have armToo : (mk labels (before ++ .comment comment :: after)).arm =
      ⟨_, first ++ .comment comment :: second⟩ := congrArg (Arm.mk _) commented
  have warning : (Render.warnFallthrough
      (earlier ++ .mk labels (before ++ after) :: later)).Orderly target .contained :=
    .warnFallthrough _
  unfold Attempt.Adds Attempt.Follows Follows
  rw [run_chainSwitch_eq, run_chainSwitch_eq, fallthroughWarnings_insert harmless]
  refine Attempt.Follows.after value fun text start reads => ?_
  have alike := (Context.Alike.of_run warning (run_warnFallthrough _ cx)).trans
    (.of_run reading reads)
  cases isDefault : (mk labels (before ++ after)).isDefault with
  | false =>
    have isToo : (mk labels (before ++ .comment comment :: after)).isDefault = false :=
      isDefault
    rw [armsOf_append, armsOf_append, armsOf_cons isDefault, armsOf_cons isToo, arm, armToo,
      fallbackOf_plain isDefault, fallbackOf_plain isToo]
    refine (chainLines_adds (orderly text) (armAdds _ first second text) _ _ true alike).bind ?_
    intro chain longer _ _ enlarged
    exact .lift (chainAdds chain longer _ _ enlarged)
  | true =>
    have isToo : (mk labels (before ++ .comment comment :: after)).isDefault = true :=
      isDefault
    have keptToo : CaseKept (.mk labels (before ++ .comment comment :: after)) later := kept
    rw [armsOf_append, armsOf_append, armsOf_cons_default isDefault, armsOf_cons_default isToo,
      fallbackOf_append isDefault kept, fallbackOf_append isToo keptToo, plain, commented]
    refine .after (chainLines (link text) true (armsOf earlier ++ armsOf later)) ?_
    intro chain reached runs
    obtain ⟨alike, _⟩ := chained_of_run (orderly text) alike runs
    exact .lift (bodyAdds chain first second reached alike)

theorem chainSwitch_hidden (hidden : ¬CaseKept (.mk labels (before ++ after)) later) :
    (chainSwitch value link finish
        (earlier ++ .mk labels (before ++ .comment comment :: after) :: later)).run.run cx =
      (chainSwitch value link finish
        (earlier ++ .mk labels (before ++ after) :: later)).run.run cx := by
  have hiddenToo : ¬CaseKept (.mk labels (before ++ .comment comment :: after)) later := hidden
  rw [run_chainSwitch_eq, run_chainSwitch_eq, fallthroughWarnings_insert harmless,
    fallbackOf_hidden hidden, fallbackOf_hidden hiddenToo, armsOf_append, armsOf_append,
    armsOf_cons_default (isDefault_of_hidden hidden),
    armsOf_cons_default (isDefault_of_hidden hiddenToo)]

end Switch

end Chains

namespace Python

variable {cx : Context} {written : Except Fault (List String)}

variable {comment : Comment} {earlier later : List Case} {before after : List Stmt}

theorem isSilent_comment (layout : Layout) (part : String) :
    isSilent (Row.line layout { depth := 0, text := commentText "#" part }) = true := by
  rw [isSilent_line, Row.isSilent, commentText]
  split
  · decide
  · rw [isSilent, String.toList_append, String.toList_append]
    rfl

theorem commentLines_laidOut (comment : Comment) (preserved : cx.settings.preserveComments = true) :
    LaidOut cx (commentLines comment) fun lines =>
      lines ≠ [] ∧ lines.all isSilent = true := by
  refine LaidOut.settings.bind ?_
  rintro _ rfl
  rw [if_neg (by simp [preserved])]
  split
  · refine (LaidOut.line "#").bind ?_
    rintro _ rfl
    refine .pure ⟨cons_ne_nil _ _, ?_⟩
    rw [List.all_cons, List.all_nil, Bool.and_true]
    exact isSilent_comment cx.layout ""
  next some =>
    refine (LaidOut.lines _ _).mono ?_
    rintro _ rfl
    refine ⟨?_, List.all_eq_true.mpr (List.forall_mem_map.mpr fun part _ => ?_)⟩
    · rw [Ne, List.map_eq_nil_iff]
      exact Text.lines_ne_nil (Bool.eq_false_iff.mpr some)
    · exact isSilent_comment cx.layout part

theorem withPass_adds (silent : ∀ more, written = .ok more → more.all isSilent = true)
    {lines longer : List String} (enlarged : Enlarged written lines longer) :
    Retarget.Adds written cx (withPass lines) (withPass longer) := by
  have same : longer.all isSilent = lines.all isSilent := by
    obtain ⟨more, first, second, isWritten, rfl, rfl⟩ := enlarged
    rw [all_append, all_append, all_append, silent more isWritten, Bool.and_true]
  unfold withPass
  rw [same]
  split
  · exact .after (Render.indented (Render.oneLine "pass")) fun passed _ _ =>
      .pure (enlarged.append_right passed)
  · exact .pure enlarged

theorem suite_adds (silent : ∀ more, written = .ok more → more.all isSilent = true)
    (header : String) {body other : Render (List String)}
    (inside : Retarget.Adds written { cx with indent := cx.indent + 1 }.pushScope body other) :
    Follows (fun fault => written = .error fault) (EnlargedBlock written) cx (suite header body)
      (suite header other) := by
  refine .after (line header) fun first after ends => ?_
  obtain ⟨_, rfl⟩ := Render.run_line_eq_ok.mp ends
  refine inside.nested.bind fun lines longer _ _ enlarged => ?_
  refine (withPass_adds silent enlarged).bind fun lines longer _ _ enlarged => ?_
  exact .pure (enlarged.cons first)

def caseComment (comment : Comment) (cx : Context) : Except Fault (List String) :=
  (commentLines comment).outcome { cx with indent := cx.indent + 1 }

theorem caseComment_silent (preserved : cx.settings.preserveComments = true) :
    ∀ more, caseComment comment cx = .ok more → more.all isSilent = true := fun _ comes =>
  have laidOut : LaidOut { cx with indent := cx.indent + 1 } (commentLines comment) _ :=
    commentLines_laidOut comment preserved
  (laidOut.holds_outcome comes).2

theorem stmts_comment_adds (preserved : cx.settings.preserveComments = true)
    (first second : List Stmt) (settings : start.settings = cx.settings)
    (indent : start.indent = cx.indent + 1) :
    Retarget.Adds (caseComment comment cx) start (stmts (first ++ second))
      (stmts (first ++ .comment comment :: second)) := by
  have laidOut : LaidOut { cx with indent := cx.indent + 1 } (commentLines comment) _ :=
    commentLines_laidOut comment preserved
  exact stmts_adds (fun _ _ => rfl) stmt_orderly rfl laidOut (fun _ facts => facts.1) first second
    settings indent

theorem armLines_adds (preserved : cx.settings.preserveComments = true)
    (tests : List Expr) (first second : List Stmt) (text : String) (isFirst : Bool)
    (start : Context) (alike : cx.Alike start) :
    Attempt.Follows (fun fault => caseComment comment cx = .error fault)
      (EnlargedBlock (caseComment comment cx)) start
      (armLines text isFirst ⟨tests, first ++ second⟩)
      (armLines text isFirst ⟨tests, first ++ .comment comment :: second⟩) := by
  refine .after (tests.mapM (labelTest text)) fun written reached ends => .lift ?_
  have alike := alike.trans (.of_run (tests_orderly text tests) ends)
  refine suite_adds (caseComment_silent preserved) _ ?_
  exact stmts_comment_adds preserved first second alike.settings (congrArg (· + 1) alike.indent)

theorem chainEnd_adds_chain {chain longer : List String}
    (enlarged : EnlargedBlock written chain longer) (body : Render (List String)) :
    Retarget.Adds written cx (chainEnd chain body) (chainEnd longer body) := by
  obtain ⟨enlarged, some, someLonger⟩ := enlarged
  unfold chainEnd
  rw [List.isEmpty_eq_false_iff.mpr some, List.isEmpty_eq_false_iff.mpr someLonger]
  exact .after (suite _ body) fun lines _ _ => .pure (enlarged.append_right lines)

theorem chainEnd_adds_body (silent : ∀ more, written = .ok more → more.all isSilent = true)
    (chain : List String) {body other : Render (List String)}
    (inside : Retarget.Adds written { cx with indent := cx.indent + 1 }.pushScope body other) :
    Retarget.Adds written cx (chainEnd chain body) (chainEnd chain other) :=
  (suite_adds silent _ inside).bind fun _ _ _ _ enlarged => .pure (enlarged.1.append_left chain)

theorem switch_adds
    (preserved : cx.settings.preserveComments = true) (harmless : Harmless before after later)
    (kept : CaseKept (.mk labels (before ++ after)) later) :
    Attempt.Adds (caseComment comment cx) cx
      (stmt (.switch discriminant (earlier ++ .mk labels (before ++ after) :: later)))
      (stmt (.switch discriminant
        (earlier ++ .mk labels (before ++ .comment comment :: after) :: later))) := by
  rw [stmt_switch, stmt_switch]
  refine chainSwitch_adds harmless kept (operand_orderly discriminant) armLines_orderly
    (armLines_adds preserved) (fun _ _ _ _ enlarged => chainEnd_adds_chain enlarged _) ?_
  intro chain first second start alike
  refine chainEnd_adds_body (caseComment_silent preserved) chain ?_
  exact stmts_comment_adds preserved first second alike.settings (congrArg (· + 1) alike.indent)

end Python

namespace C

open Text

variable {cx : Context} {written : Except Fault (List String)}

variable {comment : Comment} {earlier later : List Case} {before after : List Stmt}

def caseComment (comment : Comment) (cx : Context) : Except Fault (List String) :=
  (commentLines comment).outcome { cx with indent := cx.indent + 1 }

theorem stmts_comment_adds (preserved : cx.settings.preserveComments = true)
    (first second : List Stmt) (settings : start.settings = cx.settings)
    (indent : start.indent = cx.indent + 1) :
    Adds (caseComment comment cx) start (stmts (first ++ second))
      (stmts (first ++ .comment comment :: second)) := by
  have laidOut : LaidOut { cx with indent := cx.indent + 1 } (commentLines comment) _ :=
    commentLines_laidOut comment preserved
  exact stmts_adds (fun _ _ => rfl) stmt_orderly rfl laidOut (fun _ facts => facts.1) first second
    settings indent

theorem armLines_adds (preserved : cx.settings.preserveComments = true)
    (tests : List Expr) (first second : List Stmt) (text : String) (isFirst : Bool)
    (start : Context) (alike : cx.Alike start) :
    Attempt.Follows (fun fault => caseComment comment cx = .error fault)
      (EnlargedBlock (caseComment comment cx)) start
      (armLines text isFirst ⟨tests, first ++ second⟩)
      (armLines text isFirst ⟨tests, first ++ .comment comment :: second⟩) := by
  refine .after (tests.mapM (stringTest text)) fun written reached ends => ?_
  have alike := alike.trans (.of_run (tests_orderly text tests) ends)
  refine .after (liftM (line _)) fun header opened opens => ?_
  have alike := alike.trans (.of_run (header_orderly _) opens)
  have inside : Adds (caseComment comment cx) { opened with indent := opened.indent + 1 }.pushScope
      (stmts (first ++ second)) (stmts (first ++ .comment comment :: second)) :=
    stmts_comment_adds preserved first second alike.settings (congrArg (· + 1) alike.indent)
  refine (Attempt.Follows.lift (.nested inside)).bind fun lines longer _ _ enlarged => ?_
  exact .pure (.given (enlarged.cons header))

theorem chainEnd_adds_chain {chain longer : List String}
    (enlarged : EnlargedBlock written chain longer) (fallback : Option (Render (List String))) :
    Adds written cx (chainEnd chain fallback) (chainEnd longer fallback) := by
  obtain ⟨enlarged, some, someLonger⟩ := enlarged
  unfold chainEnd
  rw [List.isEmpty_eq_false_iff.mpr some, List.isEmpty_eq_false_iff.mpr someLonger]
  cases fallback with
  | none =>
    refine .after (line _) fun close _ _ => .pure ?_
    exact enlarged.append_right [close]
  | some body =>
    refine .after (line _) fun header _ _ => ?_
    refine .after (Render.nested body) fun inside _ _ => ?_
    refine .after (line _) fun close _ _ => .pure ?_
    rw [List.append_assoc, List.append_assoc]
    exact enlarged.append_right _

theorem chainEnd_adds_body (chain : List String) {body other : Render (List String)}
    (inside : Adds written { cx with indent := cx.indent + 1 }.pushScope body other) :
    Adds written cx (chainEnd chain (some body)) (chainEnd chain (some other)) := by
  refine .after (line _) fun header _ opens => ?_
  obtain ⟨_, rfl⟩ := Render.run_line_eq_ok.mp opens
  refine inside.nested.bind fun lines longer _ _ enlarged => ?_
  refine .after (line _) fun close _ _ => .pure ?_
  exact ((enlarged.cons header).1.append_left chain).append_right [close]

theorem stringSwitch_adds
    (string : cx.symbols.typeOf discriminant = .string)
    (preserved : cx.settings.preserveComments = true) (harmless : Harmless before after later)
    (kept : CaseKept (.mk labels (before ++ after)) later) :
    Attempt.Adds (caseComment comment cx) cx
      (stmt (.switch discriminant (earlier ++ .mk labels (before ++ after) :: later)))
      (stmt (.switch discriminant
        (earlier ++ .mk labels (before ++ .comment comment :: after) :: later))) := by
  unfold Attempt.Adds Attempt.Follows Follows
  rw [run_switch_string string, run_switch_string string]
  refine chainSwitch_adds harmless kept (stringValue_orderly discriminant) armLines_orderly
    (armLines_adds preserved) (fun _ _ _ _ enlarged => chainEnd_adds_chain enlarged _) ?_
  intro chain first second start alike
  refine chainEnd_adds_body chain ?_
  exact stmts_comment_adds preserved first second alike.settings (congrArg (· + 1) alike.indent)

end C

namespace Lower

theorem cases_comment {node : Node} (named : node.named = true) (isComment : node.isComment = true)
    (code : body.all isCommentStmt = false) (list : CaseList) (labels : List SwitchLabel)
    (rest : List Node) : cases (list.addGroup labels body) (node :: rest) =
      cases { cases := list.cases ++
        [.mk (list.labels ++ labels) (list.body ++ body ++ [commentOf node.info])] } rest := by
  obtain ⟨notGroup, notRule⟩ := kind_ne_of_isComment isComment
  rw [CaseList.addGroup, if_neg (by simp [all_append, code]), cases,
    if_neg (by simp [named]), if_neg notGroup, if_neg notRule, if_pos isComment]
  simp [CaseList.addComment, CaseList.appendToLast]

end Lower

/-- A comment in the body of a case adds its lines to the chain of conditionals that a switch
becomes and changes nothing else, if it is not taken for the end of the case. That it is not taken
for the end is needed for the warnings and the code of the case to stay as they are; the reading of
a switch puts a comment between two groups at the end of the first one, after its jump. -/
theorem comment_adds_lines (discriminant : Expr) (earlier later : List Case)
    (labels : List SwitchLabel) (before after : List Stmt) (comment : Comment) (cx : Context)
    (preserved : cx.settings.preserveComments = true) :
    let plain := mk labels (before ++ after)
    let commented := mk labels (before ++ .comment comment :: after)
    let switched (case : Case) : Stmt := .switch discriminant (earlier ++ case :: later)
    (Harmless before after later ↔
      fallthroughWarnings (earlier ++ commented :: later) =
        fallthroughWarnings (earlier ++ plain :: later) ∧
      ∃ first second, plain.arm.body = first ++ second ∧
        commented.arm.body = first ++ .comment comment :: second) ∧
    (Harmless before after later →
      (CaseKept plain later → Attempt.Adds (Python.caseComment comment cx) cx
        (Python.stmt (switched plain)) (Python.stmt (switched commented))) ∧
      (¬CaseKept plain later → (Python.stmt (switched commented)).run.run cx =
        (Python.stmt (switched plain)).run.run cx) ∧
      (cx.symbols.typeOf discriminant = .string →
        (CaseKept plain later → Attempt.Adds (C.caseComment comment cx) cx
          (C.stmt (switched plain)) (C.stmt (switched commented))) ∧
        (¬CaseKept plain later → (C.stmt (switched commented)).run.run cx =
          (C.stmt (switched plain)).run.run cx))) ∧
    ∀ (list : Lower.CaseList) (node : Node) (rest : List Node),
      node.named = true → node.isComment = true → before.all Lower.isCommentStmt = false →
      Lower.cases (list.addGroup labels before) (node :: rest) =
        Lower.cases { cases := list.cases ++
          [.mk (list.labels ++ labels) (list.body ++ before ++ [Lower.commentOf node.info])] }
          rest := by
  refine ⟨harmless_iff earlier, fun harmless => ⟨?_, ?_, fun string => ⟨?_, ?_⟩⟩, ?_⟩
  · exact Python.switch_adds preserved harmless
  · intro hidden
    rw [Python.stmt_switch, Python.stmt_switch]
    exact chainSwitch_hidden harmless hidden
  · exact C.stringSwitch_adds string preserved harmless
  · intro hidden
    rw [C.run_switch_string string, C.run_switch_string string]
    exact chainSwitch_hidden harmless hidden
  · exact fun list node rest named isComment code =>
      Lower.cases_comment named isComment code list labels rest

/-- A comment before the final `break` of a case adds its line and nothing else. -/
theorem comment_adds_lines_inside :
    let note : Comment := { text := "first", isBlock := false }
    let set (text : String) : Stmt := .expr (.assign .plain (.ident "x") (.literal (.int text)))
    let second := mk [.value (.literal (.int "2"))] [set "2", .breakStmt]
    let cx : Context :=
      { target := .python, symbols := { inner := [.scalar "n" .int, .scalar "x" .int] } }
    let switched (body : List Stmt) : Stmt :=
      .switch (.ident "n") ([] ++ .mk [.value (.literal (.int "1"))] body :: [second])
    cx.settings.preserveComments = true ∧ Harmless [set "1"] [.breakStmt] [second] ∧
      Python.caseComment note cx = .ok ["    # first"] ∧
      Attempt.Adds (Python.caseComment note cx) cx
        (Python.stmt (switched ([set "1"] ++ [.breakStmt])))
        (Python.stmt (switched ([set "1"] ++ .comment note :: [.breakStmt]))) := by
  intro note set second cx switched
  have harmless : Harmless [set "1"] [.breakStmt] [second] := .inl (cons_ne_nil _ _)
  have kept : CaseKept (.mk [.value (.literal (.int "1"))] ([set "1"] ++ [.breakStmt]))
      [second] := by
    intro isDefault
    cases isDefault
  exact ⟨rfl, harmless, by decide +kernel,
    ((comment_adds_lines (.ident "n") [] [second] [.value (.literal (.int "1"))] [set "1"]
      [.breakStmt] note cx rfl).2.1 harmless).1 kept⟩

/-- A comment after the `break` of the first case leaves the `break` in its place, and gives rise to
two warnings. -/
theorem comment_keeps_break :
    let note : Stmt := .comment { text := "first", isBlock := false }
    let set (text : String) : Stmt := .expr (.assign .plain (.ident "x") (.literal (.int text)))
    let cases (label : String → Literal) (body : List Stmt) : List Case :=
      [.mk [.value (.literal (label "1"))] body,
        .mk [.value (.literal (label "2"))] [set "2", .breakStmt]]
    let symbols : SymbolTable :=
      { inner := [.scalar "n" .int, .scalar "s" .string, .scalar "x" .int] }
    (∃ result after,
      (Python.stmt (.switch (.ident "n") (cases .int [set "1", .breakStmt]))).run.run
          { target := .python, symbols } = .ok (result, after) ∧
      result = .ok ["if n == 1:", "    x = 1", "elif n == 2:", "    x = 2", "else:", "    pass"] ∧
      after.warnings = []) ∧
    (∃ result after,
      (Python.stmt (.switch (.ident "n") (cases .int [set "1", .breakStmt, note]))).run.run
          { target := .python, symbols } = .ok (result, after) ∧
      result = .ok ["if n == 1:", "    x = 1", "    break", "    # first", "elif n == 2:",
        "    x = 2", "else:", "    pass"] ∧
      after.warnings = ["switch case 1 falls through; the next case is not run",
        "`break` nested inside a switch case now applies to the enclosing loop"]) ∧
    (∃ result after,
      (C.stmt (.switch (.ident "s") (cases .string [set "1", .breakStmt]))).run.run
          { target := .c, symbols } = .ok (result, after) ∧
      result = .ok ["if (strcmp(s, \"1\") == 0) \x7b", "    x = 1;",
        "\x7d else if (strcmp(s, \"2\") == 0) \x7b", "    x = 2;", "\x7d"] ∧
      after.warnings = []) ∧
    ∃ result after,
      (C.stmt (.switch (.ident "s") (cases .string [set "1", .breakStmt, note]))).run.run
          { target := .c, symbols } = .ok (result, after) ∧
      result = .ok ["if (strcmp(s, \"1\") == 0) \x7b", "    x = 1;", "    break;", "    // first",
        "\x7d else if (strcmp(s, \"2\") == 0) \x7b", "    x = 2;", "\x7d"] ∧
      after.warnings = ["switch case 1 falls through; the next case is not run",
        "`break` nested inside a switch case now applies to the enclosing loop"] := by
  decide +kernel

/-- In `case 1: break; default:` the last label stands right before the closing brace. -/
theorem C.label_before_brace :
    let part := Node.sample
    let group := part "switch_block_statement_group" "" ""
    let body := part "switch_block" "body" "" [
      group [part "switch_label" "" "case 1" [part "decimal_integer_literal" "" "1" []],
        part "break_statement" "" "break;" []],
      group [part "switch_label" "" "default" []]]
    ∃ result after, (do
        let read ← (Lower.casesOf body).run
        (stmt (.switch (.ident "n") (read.toOption.getD []))).run : Render _).run
          { target := .c, symbols := { inner := [.scalar "n" .int] } } = .ok (result, after) ∧
      result = .ok ["switch (n) \x7b", "    case 1:", "        break;", "    default:", "\x7d"] := by
  decide +kernel

/-- Without its comment a block is reported as one that gave no lines. -/
theorem comment_off_leaves_placeholder :
    let gives (preserveComments : Bool) (lines warnings : List String) : Prop :=
      ∃ found after, (Target.python.renderStatement none (.block [.comment ⟨"note", false⟩])).run
        { target := .python, settings := { preserveComments } } = .ok (found, after) ∧
        found = lines ∧ after.warnings = warnings
    gives true ["# note"] [] ∧ gives false ["# unsupported: block"]
      ["block produced no output; left a placeholder"] := by
  decide +kernel

end Retarget
