import Retarget.Proofs.PythonEffects

/-!
# Characters that are taken as numbers

Where Java calculates with a character it takes its code point, while in Python the character is a
string.
-/

namespace Retarget

open List (forall_mem_cons forall_mem_singleton mem_cons mem_singleton not_mem_nil)

theorem ValueType.promoteUnary_ne_char (type : ValueType) : type.promoteUnary ≠ .char := by
  cases type <;> decide

theorem ValueType.promote_ne_char (left right : ValueType) : left.promote right ≠ .char := by
  cases left <;> cases right <;> decide

theorem typeOf_ne_char_of_literalInteger {table : SymbolTable} {e : Expr} {value : Int}
    (found : literalInteger e = .ok (some value)) : table.typeOf e ≠ .char := by
  fun_induction literalInteger e generalizing value with
  | case1 literal =>
    intro letter
    cases literal with
    | char body => cases found
    | _ => cases letter
  | case2 operand => cases found
  | case3 operand => exact (table.typeOf operand).promoteUnary_ne_char
  | case4 operand plain _ => exact (plain value found).elim
  | case5 => cases found

namespace Text.Within

open Python

variable {part text : String}

theorem bracketed (within : Within part text) : Within part (bracketed text) :=
  (within.prepend "(").append ")"

theorem applied (function : String) (within : Within part text) :
    Within part (applied function text) :=
  within.bracketed.prepend function

theorem delimit (e : Expr) (within : Within part text) : Within part (delimit e text) := by
  unfold Python.delimit
  split
  · exact within.bracketed
  · exact within

theorem numericForm (type : ValueType) (e : Expr) (within : Within part text) :
    Within part (numericForm type e text) := by
  unfold Python.numericForm
  split
  · exact within.applied _
  · exact within.delimit e

theorem comparedForm (mixed : Bool) (type : ValueType) (e : Expr) (within : Within part text) :
    Within part (comparedForm mixed type e text) := by
  unfold Python.comparedForm
  split
  · exact within.numericForm type e
  · exact within.delimit e

theorem binaryText {op : BinaryOp} {type leftType : ValueType} {left right : String}
    (within : Within part left ∨ Within part right) :
    Within part (binaryText op type leftType left right) := by
  have joined (before between : String) : Within part (before ++ left ++ between ++ right) := by
    rcases within with first | second
    · exact ((first.prepend _).append _).append _
    · exact second.prepend _
  unfold Python.binaryText
  split
  · have plain := joined "" (if type.isIntegral then " // " else " / ")
    rwa [String.empty_append] at plain
  · have masked := joined "(" (" & " ++ mask leftType ++ ") >> ")
    simpa only [String.append_assoc] using masked
  · have plain := joined "" (" " ++ op.symbol ++ " ")
    simpa only [String.empty_append, String.append_assoc] using plain

end Text.Within

namespace Python

open Text Attempt

variable {table : SymbolTable}

/-- The kinds of places where a character is taken as a number: the first or second operand of an
operation or comparison, the operand of a sign, and the index of an array. -/
inductive Place where
  | first
  | second
  | signed
  | position
  deriving DecidableEq

/-- The operands of an expression that stand in such places. Joining strings is no calculation, and
two characters are compared as they are. -/
def numericPlaces (table : SymbolTable) : Expr → List (Place × Expr)
  | .binary op left right =>
    if table.isConcatenation (.binary op left right) then []
    else [(.first, left), (.second, right)]
  | .compare _ left right =>
    (if isCountable (table.typeOf right) then [(.first, left)] else []) ++
      if isCountable (table.typeOf left) then [(.second, right)] else []
  | .unary op operand => if op = .not then [] else [(.signed, operand)]
  | .index _ position => [(.position, position)]
  | _ => []

def Place.Shows (place : Place) (shown text : String) : Prop :=
  match place with
  | first => ∃ behind, text = shown ++ " " ++ behind ∨ text = "(" ++ shown ++ " " ++ behind
  | second => ∃ before, text = before ++ " " ++ shown
  | signed => ∃ sign, text = sign ++ shown
  | position => ∃ before, text = before ++ "[" ++ shown ++ "]"

/-! ## Calculations are written out -/

def CountsLetter (table : SymbolTable) (e : Expr) : Prop :=
  ∃ place operand, (place, operand) ∈ numericPlaces table e ∧ table.typeOf operand = .char

def Shown (table : SymbolTable) (e : Expr) (text : String) : Prop :=
  ∀ node : Expr, node.Occurs e → CountsLetter table node →
    ∃ inner, Renders table node inner ∧ Within inner text

namespace Shown

variable {e : Expr} {text outer : String}

theorem mono (shown : Shown table e text) (within : Within text outer) : Shown table e outer := by
  intro node occurs counts
  obtain ⟨inner, renders, inside⟩ := shown node occurs counts
  exact ⟨inner, renders, inside.trans within⟩

theorem of_parts (idle : ¬CountsLetter table e) (parts : ∀ part ∈ e.parts, Shown table part text) :
    Shown table e text := by
  intro node occurs counts
  cases occurs with
  | here => exact absurd counts idle
  | part direct inside => exact parts _ direct node inside counts

theorem literal (value : Literal) (text : String) : Shown table (.literal value) text :=
  of_parts (by simp [CountsLetter, numericPlaces]) (by simp [Expr.parts])

theorem of_ident? {name : String} (named : e.ident? = some name) : Shown table e text := by
  cases e with
  | ident other => exact of_parts (by simp [CountsLetter, numericPlaces]) (by simp [Expr.parts])
  | _ => cases named

theorem stringForm (type : ValueType) (shown : Shown table e text) :
    Shown table e (stringForm type e text) := by
  unfold Python.stringForm
  split
  · exact shown.mono ((Within.refl text).delimit e)
  · exact shown.mono ((Within.refl text).delimit e)
  · unfold booleanForm
    split
    · exact literal _ _
    · exact shown.mono (((Within.refl text).applied _).append _)
  · exact shown.mono ((Within.refl text).applied _)

end Shown

def Covers (table : SymbolTable) (e : Expr) (text : String) : Prop :=
  ∀ part ∈ e.parts, Shown table part text

namespace Covers

variable {e first second : Expr} {text : String}

theorem one (parts : e.parts = [first]) (only : Shown table first text) : Covers table e text := by
  intro part direct
  rw [parts] at direct
  exact mem_singleton.mp direct ▸ only

theorem two (parts : e.parts = [first, second]) (front : Shown table first text)
    (behind : Shown table second text) : Covers table e text := by
  intro part direct
  rw [parts, mem_cons, mem_singleton] at direct
  obtain rfl | rfl := direct
  · exact front
  · exact behind

end Covers

theorem shown_of_covers {e : Expr} (covers : Yields table (expr e) (Covers table e)) :
    Yields table (expr e) (Shown table e) := by
  intro cx text after same rendered
  obtain ⟨kept, parts⟩ := covers cx text after same rendered
  refine ⟨kept, fun node occurs counts => ?_⟩
  cases occurs with
  | here => exact ⟨text, (renders_of_run same rendered).1, .refl text⟩
  | part direct inside => exact parts _ direct node inside counts

theorem shown_of_literalInteger {e : Expr} {value : Int} (text : String)
    (found : literalInteger e = .ok (some value)) : Shown table e text := by
  fun_induction literalInteger e generalizing value with
  | case1 literal => exact .literal literal text
  | case2 operand => cases found
  | case3 operand inner negated _ ih =>
    refine .of_parts ?_ (by simpa [Expr.parts] using ih negated)
    rintro ⟨place, other, member, letter⟩
    simp only [numericPlaces, reduceCtorEq, if_false, mem_singleton, Prod.mk.injEq] at member
    obtain ⟨rfl, rfl⟩ := member
    exact typeOf_ne_char_of_literalInteger negated letter
  | case4 operand plain _ => exact (plain value found).elim
  | case5 => cases found

theorem shown_of_fromEnd {array position : Expr} {distance : Int} {text : String}
    (found : fromEnd array position = .ok (some distance)) (shown : Shown table array text) :
    Shown table position text := by
  obtain ⟨right, value, rfl, literal⟩ := fromEnd_eq_some found
  have length : Shown table (.member array "length") text :=
    .of_parts (by simp [CountsLetter, numericPlaces]) (by simpa [Expr.parts])
  have number := @shown_of_literalInteger table _ _ text literal
  refine .of_parts ?_ (by simpa [Expr.parts] using ⟨length, number⟩)
  rintro ⟨place, operand, member, letter⟩
  simp only [numericPlaces, SymbolTable.isConcatenation, Bool.false_eq_true, if_false,
    mem_cons, Prod.mk.injEq, not_mem_nil, or_false] at member
  obtain ⟨-, rfl⟩ | ⟨-, rfl⟩ := member
  · rw [SymbolTable.typeOf] at letter
    cases letter
  · exact typeOf_ne_char_of_literalInteger literal letter

section Calls

variable {args : List Expr} {texts : List String} {receiver : Attempt String} {called : Expr}

def ShowsCall (table : SymbolTable) (called : Expr) (args : List Expr) (text : String) : Prop :=
  Shown table called text ∧ ∀ arg ∈ args, Shown table arg text

theorem shown_of_forall₂ (shown : List.Forall₂ (Shown table) args texts) {text : String}
    (within : ∀ piece ∈ texts, Within piece text) : ∀ arg ∈ args, Shown table arg text := by
  induction shown with
  | nil => exact nofun
  | cons first _ ih =>
    obtain ⟨inside, others⟩ := forall_mem_cons.mp within
    exact forall_mem_cons.mpr ⟨first.mono inside, ih others⟩

theorem mathCall?_within {method : String} {rendering : Render String}
    (found : mathCall? method texts = some rendering) {cx after : Context} {text : String}
    (ends : rendering.run cx = .ok (text, after)) :
    after.symbols = cx.symbols ∧ ∀ piece ∈ texts, Within piece text := by
  unfold mathCall? at found
  split at found
  case h_1 | h_2 | h_3 =>
    cases found
    cases ends
    exact ⟨rfl, fun piece member => (Within.join member).applied _⟩
  · cases found
    cases ends
    refine ⟨rfl, forall_mem_singleton.mpr ?_⟩
    exact ((Within.refl _).append _).applied _
  case h_5 | h_6 =>
    cases found
    cases ends
    exact ⟨rfl, forall_mem_singleton.mpr (((Within.refl _).applied _).applied _)⟩
  · cases found
    cases ends
    exact ⟨rfl, nofun⟩
  · split at found
    · cases found
      cases ends
      exact ⟨rfl, fun piece member => (Within.join member).applied _⟩
    · cases found

theorem stringCall_shows (method : String) (shown : List.Forall₂ (Shown table) args texts)
    (received : Yields table receiver (Shown table called)) :
    Yields table (stringCall method args texts receiver) (ShowsCall table called args) := by
  -- The text of the receiver stands in front, and those of the arguments behind it.
  have used (form : String → String) (front : ∀ text, Within text (form text))
      (behind : ∀ text, ∀ piece ∈ texts, Within piece (form text)) :
      Yields table (receiver >>= fun text => pure (form text)) (ShowsCall table called args) := by
    refine received.bind fun text shows => .pure ⟨shows.mono (front text), ?_⟩
    exact shown_of_forall₂ shown (behind text)
  unfold stringCall
  split
  · exact used _ (fun text => (Within.refl text).applied _) (fun _ => nofun)
  · refine used _ (fun text => (((Within.refl text).append _).append _).append _) fun text => ?_
    exact forall_mem_singleton.mpr (((Within.refl _).prepend _).append _)
  · refine used _ (fun text => ((Within.refl text).append _).append _) fun text => ?_
    exact forall_mem_singleton.mpr (((Within.refl _).delimit _).prepend _)
  case h_4 | h_5 | h_6 =>
    exact used _ (fun text => (Within.refl text).append _) (fun _ => nofun)
  · refine used _ (fun text => (((Within.refl text).append _).append _).append _) fun text => ?_
    exact forall_mem_singleton.mpr (((Within.refl _).prepend _).append _)
  · refine used _ (fun text => (((((Within.refl text).append _).append _).append _).append _).append
      _) fun text => ?_
    refine forall_mem_cons.mpr ⟨?_, forall_mem_singleton.mpr ?_⟩
    · exact ((((Within.refl _).prepend _).append _).append _).append _
    · exact ((Within.refl _).prepend _).append _
  · exact .refuse _

theorem callText_shows (types : List ValueType) (owner : Option String) (method : String)
    (shown : List.Forall₂ (Shown table) args texts)
    (named : ∀ name, owner = some name → ∀ text, Shown table called text)
    (received : Yields table receiver (Shown table called)) :
    Yields table (callText types owner method args texts receiver)
      (ShowsCall table called args) := by
  have wrapped {owner : Option String} {name : String} (isOwner : owner = some name)
      (isNamed : ∀ name, owner = some name → ∀ text, Shown table called text) {text : String}
      (within : ∀ piece ∈ texts, Within piece text) :
      Yields table (pure text) (ShowsCall table called args) :=
    .pure ⟨isNamed name isOwner text, shown_of_forall₂ shown within⟩
  unfold callText
  split
  next rendering found =>
    split at found
    next isMath =>
      refine .lift fun cx text after ends => ?_
      obtain ⟨kept, within⟩ := mathCall?_within found ends
      exact ⟨kept, named _ isMath text, shown_of_forall₂ shown within⟩
    next => cases found
  next =>
    unfold staticCall
    split
    case h_1 | h_2 | h_3 =>
      exact wrapped rfl named (forall_mem_singleton.mpr ((Within.refl _).applied _))
    · refine .pure ⟨named _ rfl _, forall_mem_singleton.mpr ?_⟩
      cases shown with
      | cons first _ => exact first.stringForm _
    · exact stringCall_shows method shown received

end Calls

theorem memberText_shows (object : Expr) (field : String) :
    Yields table (memberText object.ident? field) (Shown table object) := by
  cases named : object.ident? with
  | none =>
    exact .refuse _
  | some owner =>
    intro cx text after same ends
    have consulting : (memberText (some owner) field).Consulting True := memberText_consulting _ _
    have kept : after.symbols = cx.symbols := consulting.symbols_eq ends
    exact ⟨kept.trans same, .of_ident? named⟩

mutual

theorem expr_covers : (e : Expr) → Yields table (expr e) (Covers table e)
  | .literal value => .pure (by simp [Covers, Expr.parts])
  | .ident name => .symbols (.pure (by simp [Covers, Expr.parts]))
  | .binary op left right => by
    refine .symbols ?_
    refine (shown_of_covers (expr_covers left)).bind fun l first => ?_
    refine (shown_of_covers (expr_covers right)).bind fun r second => ?_
    split
    · have joined (front behind : String) (onLeft : Shown table left front)
          (onRight : Shown table right behind) :
          Covers table (.binary op left right) (front ++ " + " ++ behind) :=
        .two rfl (onLeft.mono (((Within.refl _).append _).append _))
          (onRight.mono ((Within.refl _).prepend _))
      refine .pure (joined _ _ ?_ ?_)
      · split
        · exact first
        · exact first.stringForm _
      · split
        · exact second
        · exact second.stringForm _
    · refine .pure (.two rfl ?_ ?_)
      · exact first.mono (.binaryText (.inl ((Within.refl l).numericForm _ left)))
      · exact second.mono (.binaryText (.inr ((Within.refl r).numericForm _ right)))
  | .unary op operand => by
    refine (shown_of_covers (expr_covers operand)).bind fun text inner => .pure (.one rfl ?_)
    have delimited := (Within.refl text).delimit operand
    split
    · exact inner.mono (delimited.prepend _)
    · exact inner.mono (delimited.prepend _)
  | .logical op left right => by
    refine (shown_of_covers (expr_covers left)).bind fun l first => ?_
    refine (shown_of_covers (expr_covers right)).bind fun r second => .pure (.two rfl ?_ ?_)
    · exact first.mono ((((((Within.refl l).delimit left).append _).append _).append _).append _)
    · exact second.mono (((Within.refl r).delimit right).prepend _)
  | .compare op left right => by
    have sides (before : Attempt Unit) (quiet : Yields table before fun _ => True)
        (mixed : Bool) (leftType rightType : ValueType) :
        Yields table (before >>= fun _ => expr left >>= fun l => expr right >>= fun r =>
          pure (comparedForm mixed leftType left l ++ " " ++ op.symbol ++ " " ++
            comparedForm mixed rightType right r)) (Covers table (.compare op left right)) := by
      refine quiet.bind fun _ _ => ?_
      refine (shown_of_covers (expr_covers left)).bind fun l first => ?_
      refine (shown_of_covers (expr_covers right)).bind fun r second => .pure (.two rfl ?_ ?_)
      · have front := (Within.refl l).comparedForm mixed leftType left
        exact first.mono ((((front.append _).append _).append _).append _)
      · exact second.mono (((Within.refl r).comparedForm mixed rightType right).prepend _)
    refine .symbols ?_
    dsimp only
    split
    · exact sides _ (.warn _) _ _ _
    · exact sides (pure ()) (.pure trivial) _ _ _
  | .assign .. => .refuse _
  | .update .. => .refuse _
  | .index array position => by
    refine (shown_of_covers (expr_covers array)).bind fun a first => ?_
    have whole {text : String} (within : Within (delimit array a) text)
        (second : Shown table position text) : Covers table (.index array position) text :=
      .two rfl (first.mono (((Within.refl a).delimit array).trans within)) second
    refine (Yields.ofExcept fun distance found => found).bind fun distance found => ?_
    cases distance with
    | some k =>
      have within : Within (delimit array a) (delimit array a ++ "[-" ++ toString k ++ "]") :=
        (((Within.refl _).append _).append _).append _
      refine .pure (whole within ?_)
      exact shown_of_fromEnd found (first.mono (((Within.refl a).delimit array).trans within))
    | none =>
      refine (shown_of_covers (expr_covers position)).bind fun i second => .pure ?_
      exact whole ((((Within.refl _).append _).append _).append _)
        (second.mono (((Within.refl i).prepend _).append _))
  | .member object field => by
    unfold expr
    split
    · refine (shown_of_covers (expr_covers object)).bind fun text inner => .pure (.one rfl ?_)
      exact inner.mono ((Within.refl text).applied _)
    · exact (memberText_shows object field).mono fun _ inner => .one rfl inner
  | .arrayLiteral items => by
    refine (exprs_shown items).bind fun texts each => .pure ?_
    refine shown_of_forall₂ each fun piece member => ?_
    exact ((Within.join member).prepend _).append _
  | .ternary condition onTrue onFalse => by
    refine (shown_of_covers (expr_covers condition)).bind fun c first => ?_
    refine (shown_of_covers (expr_covers onTrue)).bind fun a second => ?_
    refine (shown_of_covers (expr_covers onFalse)).bind fun b third => .pure ?_
    refine forall_mem_cons.mpr ⟨first.mono ?_, forall_mem_cons.mpr ⟨second.mono ?_,
      forall_mem_singleton.mpr (third.mono ?_)⟩⟩
    · exact ((((Within.refl c).delimit condition).prepend _).append _).append _
    · exact (((((Within.refl a).delimit onTrue).append _).append _).append _).append _
    · exact ((Within.refl b).delimit onFalse).prepend _
  | .cast type operand => by
    refine .symbols ((shown_of_covers (expr_covers operand)).bind fun text inner => ?_)
    have whole {outer : String} (within : Within text outer) :
        Yields table (pure outer) (Covers table (.cast type operand)) :=
      .pure (.one rfl (inner.mono within))
    have bare := Within.refl text
    cases type with
    | byte | short | int | long =>
      rw [castText]
      split
      · exact whole (bare.applied _)
      · split
        · exact whole bare
        · exact whole (bare.applied _)
    | float | double | string | boolean => exact whole (bare.applied _)
    | char =>
      rw [castText]
      split
      · exact whole (bare.applied _)
      · exact whole bare
    | unknown => exact .refuse _
  | .call none method args => by
    refine .symbols ((exprs_shown args).bind fun texts each => ?_)
    have called (text : String) : Shown table (.literal .null) text := .literal _ _
    refine (callText_shows _ none method each (fun _ _ => called) (.refuse _)).mono ?_
    intro text shows
    exact shows.2
  | .call (some receiver) method args => by
    refine .symbols ((exprs_shown args).bind fun texts each => ?_)
    have shows : Yields table (callText (table.typesOf args) receiver.ident? method args texts
        (if table.typeOf receiver = .string then do return delimit receiver (← expr receiver)
          else nonString method)) (ShowsCall table receiver args) := by
      refine callText_shows _ _ method each (fun name named text => .of_ident? named) ?_
      split
      · refine (shown_of_covers (expr_covers receiver)).bind fun text inner => .pure ?_
        exact inner.mono ((Within.refl text).delimit receiver)
      · exact .refuse _
    refine shows.mono fun text ⟨front, behind⟩ => ?_
    exact List.forall_mem_append.mpr ⟨forall_mem_singleton.mpr front, behind⟩

theorem exprs_shown : (es : List Expr) →
    Yields table (exprs es) fun texts => List.Forall₂ (Shown table) es texts
  | [] => .pure .nil
  | e :: rest => by
    refine (shown_of_covers (expr_covers e)).bind fun text first => ?_
    exact (exprs_shown rest).bind fun texts others => .pure (.cons first others)

end

/-! ## The places of a calculation -/

/-- The sides of an operation that joins no strings are written as numbers. -/
theorem binary_yields {op : BinaryOp} {left right : Expr}
    (apart : table.isConcatenation (.binary op left right) = false) :
    Yields table (expr (.binary op left right)) fun text => ∃ l r, Renders table left l ∧
      Renders table right r ∧ ∃ type, text = binaryText op type (table.typeOf left)
        (numericForm (table.typeOf left) left l) (numericForm (table.typeOf right) right r) := by
  refine .symbols ((expr_renders left).bind fun l first => (expr_renders right).bind fun r second =>
    ?_)
  rw [if_neg (by simp [apart])]
  exact .pure ⟨l, r, first, second, _, rfl⟩

theorem compare_yields (op : CompareOp) (left right : Expr) :
    Yields table (expr (.compare op left right)) fun text => ∃ l r, Renders table left l ∧
      Renders table right r ∧ let mixed := isMixed (table.typeOf left) (table.typeOf right)
        text = comparedForm mixed (table.typeOf left) left l ++ " " ++ op.symbol ++ " " ++
          comparedForm mixed (table.typeOf right) right r := by
  refine .symbols ?_
  dsimp only
  split
  · refine (Yields.warn _).bind fun _ _ => ?_
    exact (expr_renders left).bind fun l first => (expr_renders right).bind fun r second =>
      .pure ⟨l, r, first, second, rfl⟩
  · exact (expr_renders left).bind fun l first => (expr_renders right).bind fun r second =>
      .pure ⟨l, r, first, second, rfl⟩

theorem unary_yields {op : UnaryOp} {operand : Expr} (sign : op ≠ .not) :
    Yields table (expr (.unary op operand)) fun text => ∃ inner, Renders table operand inner ∧
      text = op.symbol ++ delimit operand inner := by
  refine (expr_renders operand).bind fun inner renders => .pure ⟨inner, renders, ?_⟩
  exact if_neg sign

theorem index_yields (array : Expr) {position : Expr} (letter : table.typeOf position = .char) :
    Yields table (expr (.index array position)) fun text => ∃ before inner,
      Renders table position inner ∧ text = before ++ "[" ++ inner ++ "]" := by
  have inPlace : fromEnd array position = .ok none := by
    cases position with
    | binary op left right =>
      cases op with
      | sub => exact absurd letter (ValueType.promote_ne_char _ _)
      | _ => rfl
    | _ => rfl
  refine (expr_renders array).bind fun a _ => ?_
  rw [inPlace]
  refine (Yields.ofExcept fun distance found => found).bind fun distance found => ?_
  cases found
  exact (expr_renders position).bind fun inner renders => .pure ⟨_, inner, renders, rfl⟩

/-- An operation is its sides with a sign between blanks; a bracket may stand in front. -/
theorem binaryText_eq (op : BinaryOp) (type leftType : ValueType) (left right : String) :
    ∃ opening ∈ ["", "("], ∃ sign, binaryText op type leftType left right =
      opening ++ left ++ " " ++ sign ++ " " ++ right := by
  unfold binaryText
  split
  · refine ⟨"", by simp, if type.isIntegral then "//" else "/", ?_⟩
    have blanks : (if type.isIntegral then " // " else " / ") =
        " " ++ (if type.isIntegral then "//" else "/") ++ " " := by
      split <;> decide
    simp only [blanks, String.empty_append, String.append_assoc]
  · refine ⟨"(", by simp, "& " ++ mask leftType ++ ") >>", ?_⟩
    have front : " & " = " " ++ "& " := by decide
    have behind : ") >> " = ") >>" ++ " " := by decide
    simp only [front, behind, String.append_assoc]
  · exact ⟨"", by simp, op.symbol, by simp only [String.empty_append]⟩

theorem not_shows_position {before inner : String} :
    ¬Place.position.Shows (applied "ord" inner) (before ++ "[" ++ inner ++ "]") := by
  rintro ⟨other, same⟩
  -- Read from the end, the texts differ where one index begins and the other does not yet.
  have apart : ∀ letters front back : List Char,
      letters ++ '[' :: front ≠ ')' :: (letters ++ '(' :: back) := by
    intro letters
    induction letters with
    | nil => exact fun front back equal => absurd (List.cons.inj equal).1 (by decide)
    | cons letter letters ih =>
      intro front back equal
      obtain ⟨rfl, rest⟩ := List.cons.inj equal
      exact ih front back rest
  have reversed : inner.toList.reverse ++ '[' :: before.toList.reverse =
      ')' :: (inner.toList.reverse ++
        '(' :: ("ord".toList.reverse ++ '[' :: other.toList.reverse)) := by
    have backwards := congrArg (fun text : String => text.toList.reverse) same
    simpa [applied, bracketed] using backwards
  exact apart _ _ _ reversed

theorem not_shows_signed (op : UnaryOp) (e : Expr) (inner : String) :
    ¬Place.signed.Shows (applied "ord" inner) (op.symbol ++ delimit e inner) := by
  rintro ⟨sign, same⟩
  have lengths := congrArg String.length same
  have short : op.symbol.length = 1 := by cases op <;> decide
  have longer := length_delimit_add_le_ord e inner
  rw [String.length_append, String.length_append] at lengths
  omega

theorem shows_sides {text left right sign opening : String} (known : opening ∈ ["", "("])
    (spelled : text = opening ++ left ++ " " ++ sign ++ " " ++ right) :
    Place.first.Shows left text ∧ Place.second.Shows right text := by
  refine ⟨⟨sign ++ " " ++ right, ?_⟩, _, spelled⟩
  simp only [mem_cons, not_mem_nil, or_false] at known
  obtain rfl | rfl := known
  · exact .inl (by simp only [spelled, String.empty_append, String.append_assoc])
  · exact .inr (by simp only [spelled, String.append_assoc])

theorem comparedForm_eq {type other : ValueType} (letter : type = .char)
    (number : isCountable other = true) (e : Expr) (text : String) :
    comparedForm (isMixed type other) type e text = applied "ord" text ∧
      comparedForm (isMixed other type) type e text = applied "ord" text := by
  have mixed : isCountable other = true →
      isMixed .char other = true ∧ isMixed other .char = true := by
    cases other <;> decide
  rw [letter, (mixed number).1, (mixed number).2]
  exact ⟨rfl, rfl⟩

/-- A character in a numeric place is written as its code point if it is a side of an operation or
comparison, and only then. -/
theorem place_shows {node operand : Expr} {place : Place} {text : String}
    (stands : (place, operand) ∈ numericPlaces table node) (letter : table.typeOf operand = .char)
    (renders : Renders table node text) : ∃ inner, Renders table operand inner ∧
      (place.Shows (applied "ord" inner) text ↔ place = .first ∨ place = .second) := by
  have wrapped {e : Expr} (text : String) (isLetter : table.typeOf e = .char) :
      numericForm (table.typeOf e) e text = applied "ord" text := if_pos isLetter
  cases node with
  | binary op left right =>
    rw [numericPlaces] at stands
    split at stands
    next => cases stands
    next apart =>
      obtain ⟨l, r, first, second, type, rfl⟩ :=
        renders.of_yields (binary_yields (Bool.eq_false_iff.mpr apart))
      obtain ⟨opening, known, sign, spelled⟩ := binaryText_eq op type (table.typeOf left)
        (numericForm (table.typeOf left) left l) (numericForm (table.typeOf right) right r)
      obtain ⟨onLeft, onRight⟩ := shows_sides known spelled
      simp only [mem_cons, Prod.mk.injEq, not_mem_nil, or_false] at stands
      obtain ⟨rfl, rfl⟩ | ⟨rfl, rfl⟩ := stands
      · exact ⟨l, first, iff_of_true (wrapped l letter ▸ onLeft) (.inl rfl)⟩
      · exact ⟨r, second, iff_of_true (wrapped r letter ▸ onRight) (.inr rfl)⟩
  | compare op left right =>
    obtain ⟨l, r, first, second, spelled⟩ := renders.of_yields (compare_yields op left right)
    obtain ⟨onLeft, onRight⟩ := @shows_sides text _ _ op.symbol "" (by simp)
      (by rw [String.empty_append]; exact spelled)
    rcases List.mem_append.mp stands with stands | stands
    · split at stands
      next number =>
        cases mem_singleton.mp stands
        rw [(comparedForm_eq letter number _ l).1] at onLeft
        exact ⟨l, first, iff_of_true onLeft (.inl rfl)⟩
      next => cases stands
    · split at stands
      next number =>
        cases mem_singleton.mp stands
        rw [(comparedForm_eq letter number _ r).2] at onRight
        exact ⟨r, second, iff_of_true onRight (.inr rfl)⟩
      next => cases stands
  | unary op operand =>
    rw [numericPlaces] at stands
    split at stands
    next => cases stands
    next sign =>
      cases mem_singleton.mp stands
      obtain ⟨inner, inside, rfl⟩ := renders.of_yields (unary_yields sign)
      exact ⟨inner, inside, iff_of_false (not_shows_signed op operand inner) (by decide)⟩
  | index array position =>
    cases mem_singleton.mp stands
    obtain ⟨before, inner, inside, rfl⟩ := renders.of_yields (index_yields array letter)
    exact ⟨inner, inside, iff_of_false not_shows_position (by decide)⟩
  | _ => cases stands

/-- Which characters are written as their code points. Let an expression be written, and let a
character stand in it, at any depth, where Java takes it as a number. Then the text of the operation
around it stands in the text of the expression, and in its place there the character is `ord` of its
own text if it is a side of a binary operation or of a comparison. If it is the operand of a sign or
the index of an array, it is not. -/
theorem codePoint_iff_side (e : Expr) {cx after : Context} {text : String}
    (rendered : (expr e).run.run cx = .ok (.ok text, after)) {node operand : Expr} {place : Place}
    (occurs : node.Occurs e) (stands : (place, operand) ∈ numericPlaces cx.symbols node)
    (letter : cx.symbols.typeOf operand = .char) :
    ∃ outer inner, Renders cx.symbols node outer ∧ Renders cx.symbols operand inner ∧
      outer.toList <:+: text.toList ∧
      (place.Shows (applied "ord" inner) outer ↔ place = .first ∨ place = .second) := by
  obtain ⟨-, shown⟩ := shown_of_covers (expr_covers e) cx text after rfl rendered
  obtain ⟨outer, renders, within⟩ := shown node occurs ⟨place, operand, stands, letter⟩
  obtain ⟨inner, inside, side⟩ := place_shows stands letter renders
  exact ⟨outer, inner, renders, inside, within, side⟩

/-- A character `c` in `"x" + (7 - c)` and in `~c`, both of them items of a list. -/
theorem codePoint_iff_side_nested :
    let cx : Context := { target := .python, symbols := { inner := [.scalar "c" .char] } }
    let difference : Expr := .binary .sub (.literal (.int "7")) (.ident "c")
    let e : Expr := .arrayLiteral [.binary .add (.literal (.string "x")) difference,
      .unary .bitNot (.ident "c")]
    ∃ result after, (expr e).run.run cx = .ok (result, after) ∧
      result = .ok "[\"x\" + str(7 - ord(c)), ~c]" ∧
      (∃ outer inner, Renders cx.symbols difference outer ∧ Renders cx.symbols (.ident "c") inner ∧
        outer.toList <:+: "[\"x\" + str(7 - ord(c)), ~c]".toList ∧
        Place.second.Shows (applied "ord" inner) outer) ∧
      ∃ outer inner, Renders cx.symbols (.unary .bitNot (.ident "c")) outer ∧
        Renders cx.symbols (.ident "c") inner ∧
        outer.toList <:+: "[\"x\" + str(7 - ord(c)), ~c]".toList ∧
        ¬Place.signed.Shows (applied "ord" inner) outer := by
  intro cx difference e
  have rendered : ∃ result after, (expr e).run.run cx = .ok (result, after) ∧
      result = .ok "[\"x\" + str(7 - ord(c)), ~c]" := by decide +kernel
  obtain ⟨_, after, rendered, rfl⟩ := rendered
  have inSum : difference.Occurs (.binary .add (.literal (.string "x")) difference) :=
    .part (.tail _ (.head _)) (.here _)
  refine ⟨_, after, rendered, rfl, ?_, ?_⟩
  · obtain ⟨outer, inner, renders, inside, within, side⟩ := codePoint_iff_side e rendered
      (.part (.head _) inSum) (show (.second, Expr.ident "c") ∈ _ from .tail _ (.head _)) rfl
    exact ⟨outer, inner, renders, inside, within, side.mpr (.inr rfl)⟩
  · obtain ⟨outer, inner, renders, inside, within, side⟩ := codePoint_iff_side e rendered
      (.part (.tail _ (.head _)) (.here _))
      (show (.signed, Expr.ident "c") ∈ _ from .head _) rfl
    exact ⟨outer, inner, renders, inside, within, fun shows => absurd (side.mp shows) (by decide)⟩

/-- `-c` and `counts[c]`: neither the operand of the sign nor the index is written as a code point,
though both are characters. -/
theorem sign_and_index_bare :
    let cx : Context :=
      { target := .python
        symbols := { inner := [.scalar "c" .char, .array "counts" .int 1 none] } }
    let negated : Expr := .unary .neg (.ident "c")
    let item : Expr := .index (.ident "counts") (.ident "c")
    cx.symbols.typeOf (.ident "c") = .char ∧
      (.signed, Expr.ident "c") ∈ numericPlaces cx.symbols negated ∧
      (.position, Expr.ident "c") ∈ numericPlaces cx.symbols item ∧
      (∃ result after, (expr negated).run.run cx = .ok (result, after) ∧ result = .ok "-c") ∧
      (∃ result after, (expr item).run.run cx = .ok (result, after) ∧ result = .ok "counts[c]") ∧
      ¬"ord(c)".toList <:+: "-c".toList ∧ ¬"ord(c)".toList <:+: "counts[c]".toList := by
  intro cx negated item
  refine ⟨rfl, .head _, .head _, ?_, ?_, ?_, ?_⟩ <;> decide +kernel

end Python

end Retarget
