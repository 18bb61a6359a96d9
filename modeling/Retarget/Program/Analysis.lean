import Retarget.Program.Stmt

/-!
# Analyses of statements

Which variables a statement writes, and where its jumps lead. The loop and switch renderers ask
these questions before they choose a form.
-/

namespace Retarget

mutual

/-- Whether a statement writes `name`: an assignment or update in one of the expressions the
analysis visits, or a for-each loop that binds it. -/
def Stmt.writes (name : String) : Stmt → Bool
  | .declare _ _ init => init.any (·.writes name)
  | .declareArray .. => false
  | .expr e => e.writes name
  | .print p => Expr.anyWrites name p.args
  | .conditional condition body elifs otherwise =>
    condition.writes name || blockWrites name body || branchesWrite name elifs ||
      (match otherwise with
      | none => false
      | some rest => blockWrites name rest)
  | .switch discriminant cases => discriminant.writes name || casesWrite name cases
  | .forLoop init condition update body =>
    (match init with
      | none => false
      | some stmt => stmt.writes name) ||
      condition.any (·.writes name) || Expr.anyWrites name update || blockWrites name body
  | .whileLoop condition body => condition.writes name || blockWrites name body
  | .doWhile condition body => condition.writes name || blockWrites name body
  | .forEach _ bound _ body => bound = name || blockWrites name body
  | .block body => blockWrites name body
  | .sequence stmts => blockWrites name stmts
  | .breakStmt | .continueStmt | .returnStmt _ | .comment _ | .unsupported .. => false

def blockWrites (name : String) : List Stmt → Bool
  | [] => false
  | stmt :: rest => stmt.writes name || blockWrites name rest

def branchesWrite (name : String) : List Branch → Bool
  | [] => false
  | .mk condition body :: rest =>
    condition.writes name || blockWrites name body || branchesWrite name rest

def casesWrite (name : String) : List Case → Bool
  | [] => false
  | .mk _ body :: rest => blockWrites name body || casesWrite name rest

end

mutual

def Stmt.hasOwnContinue : Stmt → Bool
  | .continueStmt => true
  | .conditional _ body elifs otherwise =>
    blockHasOwnContinue body || branchesHaveOwnContinue elifs ||
      (match otherwise with
      | none => false
      | some rest => blockHasOwnContinue rest)
  | .switch _ cases => casesHaveOwnContinue cases
  | .block body => blockHasOwnContinue body
  | _ => false

def blockHasOwnContinue : List Stmt → Bool
  | [] => false
  | stmt :: rest => stmt.hasOwnContinue || blockHasOwnContinue rest

def branchesHaveOwnContinue : List Branch → Bool
  | [] => false
  | .mk _ body :: rest => blockHasOwnContinue body || branchesHaveOwnContinue rest

def casesHaveOwnContinue : List Case → Bool
  | [] => false
  | .mk _ body :: rest => blockHasOwnContinue body || casesHaveOwnContinue rest

end

mutual

def Stmt.breaksOut : Stmt → Bool
  | .breakStmt => true
  | .conditional _ body elifs otherwise =>
    blockBreaksOut body || branchesBreakOut elifs ||
      (match otherwise with
      | none => false
      | some rest => blockBreaksOut rest)
  | .block body => blockBreaksOut body
  | _ => false

def blockBreaksOut : List Stmt → Bool
  | [] => false
  | stmt :: rest => stmt.breaksOut || blockBreaksOut rest

def branchesBreakOut : List Branch → Bool
  | [] => false
  | .mk _ body :: rest => blockBreaksOut body || branchesBreakOut rest

end

/-- Whether the last statement of a block leaves it unconditionally. -/
def endsWithJump (body : List Stmt) : Bool :=
  body.getLast?.any Stmt.isJump

/-- The statements of a case but for a `break` that is the last of them. -/
def withoutFinalBreak (body : List Stmt) : List Stmt :=
  if body.getLast?.any Stmt.isBreak then body.dropLast else body

end Retarget
