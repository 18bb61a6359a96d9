import Retarget.Context

/-!
# Renderings

A rendering is described step by step: it reads the context, changes it, gives up on a statement's
own form, and ends with a value or with a fault. Running it follows the steps from a context on.

Rendering is described in two monads. A `Render` may change the context and can only end early by
a fault. An `Attempt` may besides refuse its statement, and the changes it made until then stay.
-/

namespace Retarget

/-- A computation on a context that only a fault can end early. -/
inductive Render (α : Type) where
  | done (value : α)
  | halt (fault : Fault)
  | read (next : Context → Render α)
  | update (change : Context → Context) (next : Render α)
  | giveUp (next : Render α)

namespace Render

/-- The steps of a rendering and then those of the one its value leads to. -/
def bind {α β : Type} (first : Render α) (rest : α → Render β) : Render β :=
  match first with
  | done value => rest value
  | halt fault => halt fault
  | read next => read fun cx => (next cx).bind rest
  | update change next => update change (next.bind rest)
  | giveUp next => giveUp (next.bind rest)

instance : Monad Render where
  pure := done
  bind := bind

instance : MonadStateOf Context Render where
  get := read done
  set cx := update (fun _ => cx) (done ())
  modifyGet f := read fun cx => update (fun cx => (f cx).2) (done (f cx).1)

def run {α : Type} : Render α → Context → Except Fault (α × Context)
  | done value, cx => .ok (value, cx)
  | halt fault, _ => .error fault
  | read next, cx => (next cx).run cx
  | update change next, cx => next.run (change cx)
  | giveUp next, cx => next.run cx

def change (f : Context → Context) : Render Unit :=
  update f (done ())

def symbols : Render SymbolTable := do
  return (← get).symbols

def settings : Render Settings := do
  return (← get).settings

def warn (message : String) : Render Unit :=
  change (·.warn message)

def require (capability : Capability) : Render Unit :=
  change (·.require capability)

def declare (symbol : Symbol) : Render Unit :=
  change (·.declare symbol)

def ofExcept {α : Type} : Except Fault α → Render α
  | .ok value => done value
  | .error fault => halt fault

def line (text : String) : Render String := do
  ofExcept ((← get).line text)

def oneLine (text : String) : Render (List String) := do
  return [← line text]

def indented {α : Type} (body : Render α) : Render α := do
  let level := (← get).indent
  let deeper ← ofExcept (addWords level 1)
  change fun cx => { cx with indent := deeper }
  let result ← body
  change fun cx => { cx with indent := cx.indent - 1 }
  return result

def inScope {α : Type} (body : Render α) : Render α := do
  change (·.pushScope)
  let result ← body
  change (·.popScope)
  return result

/-- Render the members of a list in order and put their lines together. -/
def concatMap {α : Type} (f : α → Render (List String)) : List α → Render (List String)
  | [] => return []
  | x :: xs => do
    let first ← f x
    let rest ← concatMap f xs
    return first ++ rest

end Render

/-- Why a statement has no rendering of its own. -/
inductive Refusal where
  | unsupported (what : String)
  | invalid (construct reason : String)
  deriving DecidableEq, Inhabited

def Refusal.message : Refusal → String
  | unsupported what => "cannot translate " ++ what
  | invalid construct reason => "invalid " ++ construct ++ ": " ++ reason

abbrev Attempt := ExceptT Refusal Render

namespace Attempt

/-- Refuse the statement, which gives up its own rendering. -/
def refuse {α : Type} (refusal : Refusal) : Attempt α :=
  ExceptT.mk (.giveUp (pure (.error refusal)))

def unsupported {α : Type} (what : String) : Attempt α :=
  refuse (.unsupported what)

def invalid {α : Type} (construct reason : String) : Attempt α :=
  refuse (.invalid construct reason)

def ofExcept {α : Type} (result : Except Fault α) : Attempt α :=
  ExceptT.lift (Render.ofExcept result)

/-- Run `body` one level of indentation deeper; also a refusal leaves at the old level. -/
def indented {α : Type} (body : Attempt α) : Attempt α :=
  ExceptT.mk (Render.indented body.run)

/-- Run `body` in a scope of its own; also a refusal leaves it. -/
def inScope {α : Type} (body : Attempt α) : Attempt α :=
  ExceptT.mk (Render.inScope body.run)

end Attempt

end Retarget
