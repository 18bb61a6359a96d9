import Retarget.Settings
import Retarget.Toml.Document

/-!
# Settings files

Settings files are TOML documents. Keys that are not settings are ignored, and a setting of the
wrong type makes the whole file invalid.
-/

namespace Retarget.Settings

/-- Why a settings file cannot be used. -/
inductive FileError where
  | unreadable
  /-- It is no TOML document, or gives a setting a value of the wrong type. -/
  | invalid
  deriving DecidableEq, Inhabited

def countIn (table : Toml.Table) (key : String) : Except FileError (Option Nat) :=
  match table.get? key with
  | none => .ok none
  | some (.integer value) => if 0 ≤ value then .ok (some value.toNat) else .error .invalid
  | some _ => .error .invalid

def flagIn (table : Toml.Table) (key : String) : Except FileError (Option Bool) :=
  match table.get? key with
  | none => .ok none
  | some (.boolean value) => .ok (some value)
  | some _ => .error .invalid

namespace Layer

def ofTable (table : Toml.Table) : Except FileError Layer := do
  let indentWidth ← countIn table "indent_width"
  let maxBlankLines ← countIn table "max_blank_lines"
  let preserveComments ← flagIn table "preserve_comments"
  let emitMainWrapper ← flagIn table "emit_main_wrapper"
  return { indentWidth, maxBlankLines, preserveComments, emitMainWrapper }

def ofText (text : String) : Except FileError Layer :=
  match Toml.parse? text with
  | some table => ofTable table
  | none => .error .invalid

/-- The layer that a settings file makes up; `none` if there is no such file. -/
def ofContent (content : Option ByteArray) : Except FileError Layer :=
  match content.bind String.fromUTF8? with
  | some text => ofText text
  | none => .error .unreadable

end Layer

def ofContent (content : Option ByteArray) : Except FileError Settings :=
  (Layer.ofContent content).map fun layer => ofLayers [layer]

/-- The settings of several files, the last one uppermost; those that cannot be used are left
out. -/
def ofContents (contents : List (Option ByteArray)) : Settings :=
  ofLayers (contents.filterMap fun content => (Layer.ofContent content).toOption)

end Retarget.Settings
