import Retarget.Text.Basic
import Retarget.Text.Blank
import Retarget.Text.Lines

/-!
# Parts of texts

A text that was put together ends in its last piece and contains every piece. Lines that were joined
are the lines of the whole.
-/

namespace Retarget.Text

theorem endsIn_append (tail text : String) : endsIn tail (text ++ tail) = true := by simp [endsIn]

theorem join_cons {one whole : String → Prop} {mark : String}
    (single : ∀ text, one text → whole text)
    (more : ∀ text rest, one text → whole rest → whole (text ++ mark ++ rest)) {text : String}
    {texts : List String} (each : ∀ part ∈ text :: texts, one part) :
    whole (join mark (text :: texts)) := by
  induction texts generalizing text with
  | nil =>
    rw [join, String.intercalate_singleton]
    exact single text (each text List.mem_cons_self)
  | cons next texts ih =>
    obtain ⟨first, others⟩ := List.forall_mem_cons.mp each
    rw [join, String.intercalate_cons_cons]
    exact more text _ first (ih others)

theorem append_join {holds : String → Prop} {pieces : List String}
    (step : ∀ text, ∀ piece ∈ pieces, holds text → holds (text ++ piece)) {text : String}
    (first : holds text) : holds (text ++ String.join pieces) := by
  induction pieces generalizing text with
  | nil => simpa using first
  | cons piece pieces ih =>
    rw [String.join_cons, ← String.append_assoc]
    exact ih (fun text other member => step text other (List.mem_cons_of_mem piece member))
      (step text piece List.mem_cons_self first)

theorem after?_append (start rest : List Char) : after? start (start ++ rest) = some rest := by
  induction start with
  | nil => rfl
  | cons c start ih => simpa [after?] using ih

theorem append_of_after? {start cs rest : List Char} (found : after? start cs = some rest) :
    start ++ rest = cs := by
  fun_induction after? start cs with
  | case1 =>
    cases found
    rfl
  | case2 => cases found
  | case3 _ _ _ ih => rw [List.cons_append, ih found]
  | case4 => cases found

theorem append_of_beforeEnd? {tail text front : String} (found : beforeEnd? tail text = some front) :
    front ++ tail = text := by
  obtain ⟨cs, after, rfl⟩ := Option.map_eq_some_iff.mp found
  have parts := congrArg List.reverse (append_of_after? after)
  rw [List.reverse_append, List.reverse_reverse, List.reverse_reverse] at parts
  apply String.toList_injective
  rw [String.toList_append, String.toList_ofList, parts]

theorem occurs_append (before needle rest : List Char) :
    occurs needle (before ++ (needle ++ rest)) = true := by
  induction before with
  | nil =>
    cases needle with
    | nil => cases rest <;> simp [occurs]
    | cons c needle => simp [occurs]
  | cons c before ih => simp [occurs, ih]

theorem mem_of_occurs {needle cs : List Char} (found : occurs needle cs = true) {c : Char}
    (member : c ∈ needle) : c ∈ cs := by
  induction cs with
  | nil =>
    rw [occurs, List.isEmpty_iff] at found
    rw [found] at member
    exact member
  | cons first rest ih =>
    rw [occurs, Bool.or_eq_true] at found
    rcases found with front | later
    · exact (List.isPrefixOf_iff_prefix.mp front).subset member
    · exact List.mem_cons_of_mem _ (ih later)

theorem contains_append (before needle rest : String) :
    contains needle (before ++ needle ++ rest) = true := by
  simp only [contains, String.toList_append, List.append_assoc]
  exact occurs_append _ _ _

def Within (part text : String) : Prop :=
  part.toList <:+: text.toList

namespace Within

variable {part text : String}

theorem refl (text : String) : Within text text :=
  List.infix_rfl

theorem trans {outer : String} (inner : Within part text) (within : Within text outer) :
    Within part outer :=
  List.IsInfix.trans inner within

theorem append (within : Within part text) (behind : String) : Within part (text ++ behind) := by
  unfold Within
  rw [String.toList_append]
  exact List.infix_append_of_infix_left within

theorem prepend (before : String) (within : Within part text) : Within part (before ++ text) := by
  unfold Within
  rw [String.toList_append]
  exact List.infix_append_of_infix_right within

theorem join {separator : String} {pieces : List String} (member : part ∈ pieces) :
    Within part (join separator pieces) := by
  induction pieces with
  | nil => cases member
  | cons piece rest ih =>
    cases rest with
    | nil =>
      rw [List.mem_singleton.mp member, Text.join, String.intercalate_singleton]
      exact refl piece
    | cons second rest =>
      rw [Text.join, String.intercalate_cons_cons]
      rcases List.mem_cons.mp member with rfl | later
      · exact ((refl part).append _).append _
      · exact (ih later).prepend _

end Within

theorem dropTailWhile_append_tail {α : Type} (p : α → Bool) (xs : List α) :
    dropTailWhile p xs ++ (xs.reverse.takeWhile p).reverse = xs := by
  rw [dropTailWhile, ← List.reverse_append, List.takeWhile_append_dropWhile, List.reverse_reverse]

theorem isPrefix_dropTailWhile {α : Type} (p : α → Bool) (xs : List α) :
    dropTailWhile p xs <+: xs :=
  ⟨_, dropTailWhile_append_tail p xs⟩

theorem isInfix_trimmed {α : Type} (p : α → Bool) (xs : List α) :
    dropTailWhile p (xs.dropWhile p) <:+: xs :=
  (isPrefix_dropTailWhile p _).isInfix.trans (List.dropWhile_suffix p).isInfix

theorem head?_dropTailWhile {α : Type} {p : α → Bool} {x : α} (fails : p x = false)
    (xs : List α) : (dropTailWhile p (x :: xs)).head? = some x := by
  rw [dropTailWhile, List.head?_reverse, List.reverse_cons, List.dropWhile_append]
  split
  · simp [fails]
  · simp

theorem head?_trimChars (cs : List Char) : (trimChars cs).head? = (cs.dropWhile isBlank).head? := by
  unfold trimChars
  cases shown : cs.dropWhile isBlank with
  | nil => rfl
  | cons c rest =>
    have visible : isBlank c = false := by simpa [shown] using List.head?_dropWhile_not isBlank cs
    exact head?_dropTailWhile visible rest

theorem isPrefixOf_singleton (c : Char) (cs : List Char) :
    [c].isPrefixOf cs = true ↔ cs.head? = some c := by
  cases cs with
  | nil => simp
  | cons d cs =>
    rw [List.isPrefixOf_iff_prefix, List.head?_cons, Option.some_inj, eq_comm]
    simp

theorem linesFrom_append (run first rest : List Char) :
    linesFrom run (first ++ '\n' :: rest) = linesFrom run (first ++ ['\n']) ++ linesFrom [] rest := by
  induction first generalizing run with
  | nil => simp [linesFrom]
  | cons c cs ih =>
    rw [List.cons_append, List.cons_append, linesFrom, linesFrom]
    split
    · rw [ih, List.cons_append]
    · exact ih _

theorem linesFrom_unbroken (run : List Char) {cs : List Char} (unbroken : '\n' ∉ cs) :
    linesFrom run (cs ++ ['\n']) = [closeLine (cs.reverse ++ run)] := by
  induction cs generalizing run with
  | nil => simp [linesFrom]
  | cons c cs ih =>
    obtain ⟨notFeed, unbroken⟩ := not_or.mp (mt List.mem_cons.mpr unbroken)
    rw [List.cons_append, linesFrom, if_neg (Ne.symm notFeed), ih _ unbroken]
    simp

def IsLine (text : String) : Prop :=
  '\n' ∉ text.toList ∧ text.toList.getLast? ≠ some '\r'

instance decidableIsLine (text : String) : Decidable (IsLine text) :=
  inferInstanceAs (Decidable (_ ∧ _))

theorem closeLine_reverse {text : String} (isLine : IsLine text) :
    closeLine (text.toList.reverse ++ []) = text := by
  rw [List.append_nil]
  cases reversed : text.toList.reverse with
  | nil =>
    rw [List.reverse_eq_nil_iff] at reversed
    rw [← String.ofList_toList (s := text), reversed]
    rfl
  | cons c earlier =>
    have other : c ≠ '\r' := by
      rintro rfl
      apply isLine.2
      rw [← List.head?_reverse, reversed]
      rfl
    rw [closeLine, if_neg other, ← reversed, List.reverse_reverse, String.ofList_toList]

theorem linesFrom_isLine {text : String} (isLine : IsLine text) :
    linesFrom [] (text.toList ++ ['\n']) = [text] := by
  rw [linesFrom_unbroken [] isLine.1, closeLine_reverse isLine]

theorem lines_join {pieces : List String} (some : pieces ≠ []) :
    lines (join "\n" pieces ++ "\n") =
      pieces.flatMap fun piece => linesFrom [] (piece.toList ++ ['\n']) := by
  induction pieces with
  | nil => exact absurd rfl some
  | cons first rest ih =>
    cases rest with
    | nil => simp [lines, join]
    | cons second rest =>
      have whole : (join "\n" (first :: second :: rest) ++ "\n").toList =
          first.toList ++ '\n' :: (join "\n" (second :: rest) ++ "\n").toList := by
        simp [join, String.intercalate_cons_cons]
      rw [lines, whole, linesFrom_append, List.flatMap_cons, ← ih (List.cons_ne_nil _ _)]
      rfl

theorem mem_lines_join {pieces : List String} {piece : String} (member : piece ∈ pieces)
    (isLine : IsLine piece) : piece ∈ lines (join "\n" pieces ++ "\n") := by
  rw [lines_join (List.ne_nil_of_mem member)]
  refine List.mem_flatMap.mpr ⟨piece, member, ?_⟩
  rw [linesFrom_isLine isLine]
  exact List.mem_singleton_self piece

theorem lines_ne_nil {text : String} (some : text.isEmpty = false) : lines text ≠ [] := by
  have loop (run cs : List Char) (some : run ++ cs ≠ []) : linesFrom run cs ≠ [] := by
    fun_induction linesFrom run cs with
    | case1 run empty => exact absurd (by simpa using empty) some
    | case2 => exact List.cons_ne_nil _ _
    | case3 => exact List.cons_ne_nil _ _
    | case4 run c cs other ih => exact ih (by simp)
  refine loop [] text.toList fun empty => ?_
  rw [String.toList_eq_nil_iff.mp empty] at some
  cases some

theorem of_mem_linesFrom {run cs : List Char} (unbroken : '\n' ∉ run) {line : String}
    (member : line ∈ linesFrom run cs) :
    line.toList <:+: run.reverse ++ cs ∧ '\n' ∉ line.toList := by
  fun_induction linesFrom run cs with
  | case1 => cases member
  | case2 run =>
    cases List.mem_singleton.mp member
    simpa using unbroken
  | case3 run cs ih =>
    rcases List.mem_cons.mp member with rfl | later
    · have closed : (closeLine run).toList <+: run.reverse := by
        unfold closeLine
        split
        · simp
        · split <;> simp
      exact ⟨closed.isInfix.trans (List.prefix_append _ _).isInfix,
        fun broken => unbroken (List.mem_reverse.mp (closed.subset broken))⟩
    · obtain ⟨within, whole⟩ := ih (by simp) later
      exact ⟨within.trans ⟨run.reverse ++ ['\n'], [], by simp⟩, whole⟩
  | case4 run c cs other ih => simpa using ih (by simp [unbroken, Ne.symm other]) member

theorem infix_of_mem_lines {text line : String} (member : line ∈ lines text) :
    line.toList <:+: text.toList :=
  (of_mem_linesFrom (by simp) member).1

theorem not_mem_of_mem_lines {text line : String} (member : line ∈ lines text) :
    '\n' ∉ line.toList :=
  (of_mem_linesFrom (by simp) member).2

end Retarget.Text
