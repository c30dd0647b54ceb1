import ServiceQuery.Toml.Basic

/-!
# TOML tables under construction

A table can be declared in pieces: by its header, by the header of a table below it, and by keys
with dots. The pieces have to fit together.
-/

namespace ServiceQuery.Toml

/-- How a table came to be. -/
inductive Origin where
  /-- By its own header. -/
  | declared
  /-- By the header of a table below it. -/
  | implied
  /-- By a key with dots. -/
  | dotted
  deriving DecidableEq

/-- A value or a table under construction. -/
inductive Item where
  | value (value : Toml)
  | table (origin : Origin) (entries : List (String × Item))
  /-- An array of tables, each given by its entries. -/
  | tables (elements : List (List (String × Item)))
  deriving Inhabited

/-- The entries of a table. -/
abbrev Entries := List (String × Item)

mutual

/-- The value of a finished item. -/
def Item.finish : Item → Toml
  | .value value => value
  | .table _ entries => .table (finishEntries entries)
  | .tables elements => .array (finishElements elements)

/-- The finished entries of a table. -/
def finishEntries : List (String × Item) → List (String × Toml)
  | [] => []
  | (name, item) :: rest => (name, item.finish) :: finishEntries rest

/-- The finished elements of an array of tables. -/
def finishElements : List (List (String × Item)) → List Toml
  | [] => []
  | entries :: rest => .table (finishEntries entries) :: finishElements rest

end

/-- Changes an entry, which may be missing; a new one comes last. -/
def alter (name : String) (change : Option Item → Option Item) : Entries → Option Entries
  | [] => (change none).map fun item => [(name, item)]
  | (other, item) :: rest =>
    if other = name then (change (some item)).map fun item => (other, item) :: rest
    else (alter name change rest).map ((other, item) :: ·)

/-- Changes the last element of an array of tables. -/
def alterLast (change : Entries → Option Entries) : List Entries → Option (List Entries)
  | [] => none
  | [entries] => (change entries).map ([·])
  | entries :: rest => (alterLast change rest).map (entries :: ·)

/-- Changes the table at the end of a path. Missing tables are made with the given origin; a path of
a dotted key passes through no declared table. `change` receives the origin of the table. -/
def descend (origin : Origin) (change : Origin → Entries → Option Entries) :
    List String → Origin → Entries → Option Entries
  | [], found, entries => change found entries
  | name :: path, _, entries =>
    alter name
      (fun item =>
        match item with
        | none => (descend origin change path origin []).map (.table origin)
        | some (.value _) => none
        | some (.tables elements) =>
          (alterLast (descend origin change path .declared) elements).map .tables
        | some (.table existing below) =>
          if origin = .dotted ∧ existing = .declared then none
          else (descend origin change path existing below).map (.table existing))
      entries

/-- Adds a value that was not there. -/
def insertNew (name : String) (value : Toml) : Entries → Option Entries :=
  alter name fun
    | none => some (.value value)
    | some _ => none

/-- Adds a key with its value. The table that a dotted key ends in has to be made by dotted keys
alone. -/
def insertKey (path : List String) (name : String) (value : Toml) (entries : Entries) :
    Option Entries :=
  descend .dotted
    (fun found entries =>
      if path.isEmpty || found = .dotted then insertNew name value entries else none)
    path .declared entries

/-- Declares a table by its header; so far it may only have been implied. -/
def openTable (path : List String) (name : String) (entries : Entries) : Option Entries :=
  descend .implied
    (fun _ entries =>
      alter name
        (fun
          | none => some (.table .declared [])
          | some (.table .implied below) => some (.table .declared below)
          | some _ => none)
        entries)
    path .declared entries

/-- Declares one more element of an array of tables. -/
def openElement (path : List String) (name : String) (entries : Entries) : Option Entries :=
  descend .implied
    (fun _ entries =>
      alter name
        (fun
          | none => some (.tables [[]])
          | some (.tables elements) => some (.tables (elements ++ [[]]))
          | some _ => none)
        entries)
    path .declared entries

/-- The current table: where the last header has led. -/
def withCurrent (change : Entries → Option Entries) (header : List String) (entries : Entries) :
    Option Entries :=
  descend .implied (fun _ entries => change entries) header .declared entries

end ServiceQuery.Toml
