/-!
# TOML values

Values of a TOML document and the rules by which its tables grow. A table remembers how it came to
be, since that decides whether a later key or header may add to it.
-/

namespace Retarget.Toml

inductive Origin where
  | header
  | implied
  | dotted
  | inline
  deriving DecidableEq, Inhabited

/-- A value. Floats and dates are kept as they are spelled. -/
inductive Value where
  | string (text : String)
  | integer (value : Int)
  | float (spelling : String)
  | boolean (value : Bool)
  | dateTime (spelling : String)
  | array (items : List Value)
  | table (origin : Origin) (entries : List (String × Value))
  /-- The tables of repeated headers in double brackets. -/
  | tables (elements : List (List (String × Value)))

instance : Inhabited Value := ⟨.boolean false⟩

abbrev Table := List (String × Value)

/-- A dotted key: the tables it leads through and the name at its end. -/
structure Key where
  path : List String
  name : String
  deriving DecidableEq, Inhabited

def Key.under (table : String) (key : Key) : Key :=
  { key with path := table :: key.path }

namespace Table

def get? (table : Table) (name : String) : Option Value :=
  (table.find? fun entry => entry.1 = name).map (·.2)

def set (table : Table) (name : String) (value : Value) : Table :=
  if (table.get? name).isSome then
    table.map fun entry => if entry.1 = name then (name, value) else entry
  else table ++ [(name, value)]

def changeLast (change : Table → Option Table) (elements : List Table) : Option (List Table) :=
  match elements.getLast? with
  | some last => (change last).map fun changed => elements.dropLast ++ [changed]
  | none => none

/-- The table with a new value under a name at the end of a path of dotted keys. Tables on the way
are made as needed; those of headers are closed to dotted keys, and one that a header implies can
only be passed through. -/
def insert (name : String) (value : Value) : List String → Table → Option Table
  | [], table => if (table.get? name).isSome then none else some (table.set name value)
  | step :: path, table =>
    match table.get? step with
    | none => (insert name value path []).map fun inner => table.set step (.table .dotted inner)
    | some (.table .dotted inner) =>
      (insert name value path inner).map fun inner => table.set step (.table .dotted inner)
    | some (.table .implied inner) =>
      if path.isEmpty then none
      else (insert name value path inner).map fun inner => table.set step (.table .implied inner)
    | some (.tables elements) =>
      if path.isEmpty then none
      else (changeLast (insert name value path) elements).map fun elements =>
        table.set step (.tables elements)
    | some _ => none

def insertAll (table : Table) : List (Key × Value) → Option Table
  | [] => some table
  | (key, value) :: rest =>
    match table.insert key.name value key.path with
    | some table => insertAll table rest
    | none => none

/-- The table with the value under a name at the end of a header's path changed. Tables on the way
are implied as needed, and of repeated headers the last one counts. -/
def change (name : String) (f : Option Value → Option Value) : List String → Table → Option Table
  | [], table => (f (table.get? name)).map (table.set name)
  | step :: path, table =>
    match table.get? step with
    | none => (change name f path []).map fun inner => table.set step (.table .implied inner)
    | some (.table .inline _) => none
    | some (.table origin inner) =>
      (change name f path inner).map fun inner => table.set step (.table origin inner)
    | some (.tables elements) =>
      (changeLast (change name f path) elements).map fun elements =>
        table.set step (.tables elements)
    | some _ => none

end Table

/-- A section of a document: a header with the keys below it. -/
structure Section where
  key : Key
  /-- Whether the header stands in double brackets, each of which starts a table of its own. -/
  repeated : Bool
  entries : List (Key × Value)

namespace Section

def value (s : Section) : Option Value → Option Value
  | none =>
    (Table.insertAll [] s.entries).map fun table =>
      if s.repeated then .tables [table] else .table .header table
  | some (.table .implied inner) =>
    if s.repeated then none else (Table.insertAll inner s.entries).map (.table .header)
  | some (.tables elements) =>
    if s.repeated then
      (Table.insertAll [] s.entries).map fun table => .tables (elements ++ [table])
    else none
  | some _ => none

end Section

/-- The table of a document: the keys before the first header, and the sections in order. -/
def Table.ofSections (table : Table) : List Section → Option Table
  | [] => some table
  | s :: rest =>
    match table.change s.key.name s.value s.key.path with
    | some table => Table.ofSections table rest
    | none => none

end Retarget.Toml
