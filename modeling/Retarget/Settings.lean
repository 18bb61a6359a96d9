/-!
# Settings

The layout settings of a conversion, and the layers of settings files that make them up.
-/

namespace Retarget

structure Settings where
  indentWidth : Nat := 4
  /-- The longest run of blank lines kept from the source. -/
  maxBlankLines : Nat := 1
  preserveComments : Bool := true
  emitMainWrapper : Bool := true
  deriving DecidableEq, Inhabited

namespace Settings

/-- What one settings file sets; an absent key leaves the layer below alone. -/
structure Layer where
  indentWidth : Option Nat := none
  maxBlankLines : Option Nat := none
  preserveComments : Option Bool := none
  emitMainWrapper : Option Bool := none
  deriving DecidableEq, Inhabited

def apply (settings : Settings) (layer : Layer) : Settings where
  indentWidth := layer.indentWidth.getD settings.indentWidth
  maxBlankLines := layer.maxBlankLines.getD settings.maxBlankLines
  preserveComments := layer.preserveComments.getD settings.preserveComments
  emitMainWrapper := layer.emitMainWrapper.getD settings.emitMainWrapper

/-- The defaults with the given layers on top, the last one uppermost. -/
def ofLayers (layers : List Layer) : Settings :=
  layers.foldl apply {}

end Settings

end Retarget
