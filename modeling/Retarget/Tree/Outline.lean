import Retarget.Tree.Node

/-!
# Outlines of trees

An outline gives the nodes of a syntax tree by their places in the source text, in bytes of its
UTF-8 form. Together with the text it determines the tree.
-/

namespace Retarget

/-- A node given by the bytes it spans. -/
inductive Outline where
  | mk (kind : String) (named : Bool) (field : String) (start stop : Nat)
      (children : List Outline)

instance : Inhabited Outline := ⟨.mk "" false "" 0 0 []⟩

/-- A source text, in bytes, with the places of its line feeds. -/
structure Source where
  bytes : ByteArray
  lineFeeds : List Nat

namespace Source

def ofText (text : String) : Source :=
  let bytes := text.toUTF8
  { bytes, lineFeeds := (List.range bytes.size).filter fun i => bytes.get! i = 10 }

/-- The text between two places; empty if they cut a character. -/
def slice (source : Source) (start stop : Nat) : String :=
  (String.fromUTF8? (source.bytes.extract start stop)).getD ""

def row (source : Source) (place : Nat) : Nat :=
  source.lineFeeds.countP (· < place)

end Source

mutual

def Outline.resolve (source : Source) : Outline → Node
  | .mk kind named field start stop children =>
    .mk
      { kind, named, field, text := source.slice start stop, firstRow := source.row start,
        lastRow := source.row stop }
      (resolveAll source children)

def resolveAll (source : Source) : List Outline → List Node
  | [] => []
  | outline :: rest => outline.resolve source :: resolveAll source rest

end

def Tree.ofOutline (text : String) (hasError : Bool) (outline : Outline) : Tree :=
  { hasError, root := outline.resolve (Source.ofText text) }

end Retarget
