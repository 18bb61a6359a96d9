import Retarget.Text.Basic

/-!
# Places and paths

A place is told by the names on the way to it. The way begins at the root, or so many levels above
the working directory, since nothing is known of how that directory is called. A path is a way
written down; it may turn back and may pass through the same directory twice.
-/

namespace Retarget

inductive Anchor where
  | above (levels : Nat)
  | root
  deriving DecidableEq, Inhabited

structure Place where
  anchor : Anchor
  names : List String := []
  deriving DecidableEq, Inhabited

namespace Place

def here : Place := { anchor := .above 0 }

def root : Place := { anchor := .root }

def parent (place : Place) : Place :=
  match place.names, place.anchor with
  | [], .above levels => { anchor := .above (levels + 1) }
  | [], .root => place
  | _ :: _, _ => { place with names := place.names.dropLast }

def child (place : Place) (name : String) : Place :=
  { place with names := place.names ++ [name] }

def isWithin (place directory : Place) : Bool :=
  place.anchor = directory.anchor && directory.names.isPrefixOf place.names &&
    place.names != directory.names

def step (place : Place) (name : String) : Place :=
  match name with
  | "." => place
  | ".." => place.parent
  | _ => place.child name

end Place

structure Path where
  start : Place
  steps : List String
  endsInSlash : Bool
  deriving DecidableEq, Inhabited

namespace Path

def maxSize : Nat := 4095

def maxNameSize : Nat := 255

/-- The texts between slashes; `last` holds the characters of the open one, last first. -/
def stepsFrom (last : List Char) : List Char → List String
  | [] => [String.ofList last.reverse]
  | c :: cs =>
    if c = '/' then String.ofList last.reverse :: stepsFrom [] cs else stepsFrom (c :: last) cs

/-- The path that a text spells. Slashes that follow one another count as one. -/
def ofText (text : String) : Path :=
  { start := if Text.beginsWith "/" text then .root else .here
    steps := (stepsFrom [] text.toList).filter (!·.isEmpty)
    endsInSlash := Text.endsIn "/" text }

/-- The place that a path leads to if every step on the way is a directory. -/
def place (path : Path) : Place :=
  path.steps.foldl Place.step path.start

end Path

end Retarget
