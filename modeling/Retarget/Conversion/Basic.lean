import Retarget.Conversion.Item
import Retarget.Conversion.Tidy
import Retarget.Lower.Stmt
import Retarget.Render.Dispatch

/-!
# Conversions

The conversion of a syntax tree into a program of a target. Every statement of the entry point's
body contributes lines, so a conversion fails only when there is no entry point or when a fault
ends it; even then there is code, which tells why.
-/

namespace Retarget

inductive Failure where
  | noEntryPoint
  | fault (fault : Fault)
  deriving DecidableEq, Inhabited

namespace Failure

def message : Failure → String
  | noEntryPoint => "no entry point: expected a `static` method named `main`"
  | fault f => "internal error: " ++ f.message

end Failure

/-- The result of a conversion. There is code in any case. -/
structure Outcome where
  code : String
  warnings : List String
  failure : Option Failure := none
  deriving DecidableEq, Inhabited

namespace Outcome

def success (outcome : Outcome) : Bool :=
  outcome.failure.isNone

def error? (outcome : Outcome) : Option String :=
  outcome.failure.map Failure.message

end Outcome

namespace Conversion

def syntaxErrorMessage : String :=
  "source has syntax errors; affected statements may be placeholders"

/-- The lines of a statement with the comment that ends its row. Without lines the comment stands
on its own. -/
def withTrailing (target : Target) (comment : Comment) (lines : List String) :
    Render (List String) := do
  match lines.getLast? with
  | none => target.renderStatement none (.comment comment)
  | some last =>
    if (← Render.settings).preserveComments then
      let text := Text.join " " (Text.lines comment.text)
      return lines.dropLast ++ [last ++ target.trailingComment text]
    else return lines

def statementLines (target : Target) (node : Node) : Render (List String) := do
  match ← Lower.kept node.info (Lower.statement node) with
  | some stmt => target.renderStatement (some node.text) stmt
  | none => return []

def itemLines (target : Target) : Item → Render (List String)
  | .blank count => return List.replicate count ""
  | .comment node => target.renderStatement none (.comment (Lexeme.comment node.text))
  | .statement node none => statementLines target node
  | .statement node (some trailing) => do
    let lines ← statementLines target node
    withTrailing target (Lexeme.comment trailing.text) lines

def bodyCode (target : Target) (body : Node) : Render String := do
  let settings ← Render.settings
  Render.change fun cx => { cx with indent := target.baseIndent settings }
  let lines ← Render.concatMap (itemLines target) (Item.listOf settings.maxBlankLines body)
  let code ← Render.ofExcept (target.assemble (← get) lines)
  return Text.tidy settings.maxBlankLines code

def treeCode (target : Target) (tree : Tree) : Render (Option String) := do
  if tree.hasError then Render.warn syntaxErrorMessage
  match tree.root.entryBody? with
  | none => return none
  | some body => return some (← bodyCode target body)

def failureLine (target : Target) (reason : String) : String :=
  target.commentMark ++ " translation failed: " ++ reason ++ "\n"

def echoLine (target : Target) (line : String) : String :=
  (if line.isEmpty then target.commentMark else target.commentMark ++ " " ++ line) ++ "\n"

def echo (target : Target) (reason source : String) : String :=
  failureLine target reason ++ echoLine target "" ++
    Text.join "" ((Text.lines source).map (echoLine target))

end Conversion

def convert (settings : Settings) (target : Target) (source : String) (tree : Tree) : Outcome :=
  match (Conversion.treeCode target tree).run { target, settings } with
  | .ok (some code, cx) => { code, warnings := cx.warnings }
  | .ok (none, cx) =>
    { code := Conversion.failureLine target Failure.noEntryPoint.message
      warnings := cx.warnings
      failure := some .noEntryPoint }
  | .error fault =>
    { code := Conversion.echo target fault.message source
      warnings := []
      failure := some (.fault fault) }

end Retarget
