/-!
# TOML documents

The values of a document, and how its statements build a table. A table may be opened by its own
header once, and before that only in passing, on the way to a table below it. A dotted key extends
the tables that dotted keys made and no others; what a value was written as a whole for, an array or
an inline table, stays as it is.
-/

namespace Supervision

/-- A value of a document. Of floats and dates no more is kept than that they are such. -/
inductive Toml
  | str (s : String)
  | int (i : Int)
  | bool (b : Bool)
  | float
  | date
  | arr (items : List Toml)
  | table (entries : List (String × Toml))
  deriving Inhabited, Repr

namespace Toml

/-- The value of a table under a key. -/
def get? (key : String) (entries : List (String × Toml)) : Option Toml :=
  entries.lookup key

/-- How a table came about. -/
inductive Origin
  /-- On the way to a table below it. -/
  | passing
  | dotted
  | header
  deriving DecidableEq, Repr

/-- A document while it is built. -/
inductive Node
  | value (v : Toml)
  /-- A table that is still open. -/
  | table (origin : Origin) (entries : List (String × Node))
  /-- Tables under one repeated header: the latest, and those before it. -/
  | tables (latest : List (String × Node)) (earlier : List (List (String × Node)))

/-- The entries of a table while it is built. -/
abbrev Entries := List (String × Node)

/-- Replaces what stands under a key, or adds it at the end. -/
def Entries.put (key : String) (node : Node) : Entries → Entries
  | [] => [(key, node)]
  | (k, n) :: rest => if k = key then (k, node) :: rest else (k, n) :: put key node rest

/-- Goes down a path and changes the table at its end; tables on the way that do not exist are made.
`origin` says what leads there, and `change` gets the origin of the table that it changes. -/
def Entries.modify (origin : Origin) (change : Origin → Entries → Option Entries) (here : Origin) :
    List String → Entries → Option Entries
  | [], entries => change here entries
  | key :: path, entries =>
    match entries.lookup key with
    | none =>
      (modify origin change origin path []).map (fun es => put key (.table origin es) entries)
    | some (.table o es) =>
      if origin = .dotted ∧ o = .header then none
      else (modify origin change o path es).map (fun es => put key (.table o es) entries)
    | some (.tables latest earlier) =>
      (modify origin change .header path latest).map
        (fun es => put key (.tables es earlier) entries)
    | some (.value _) => none

def Entries.add (key : String) (v : Toml) (entries : Entries) : Option Entries :=
  match entries.lookup key with
  | none => some (put key (.value v) entries)
  | some _ => none

/-- Adds a value under a dotted key, given by its parts. -/
def Entries.addDotted (here : Origin) (path : List String) (key : String) (v : Toml)
    (entries : Entries) : Option Entries :=
  modify .dotted
    (fun origin es => if (origin = .dotted) = (path ≠ []) then add key v es else none)
    here path entries

def Entries.openTable (key : String) (entries : Entries) : Option Entries :=
  match entries.lookup key with
  | none => some (put key (.table .header []) entries)
  | some (.table .passing es) => some (put key (.table .header es) entries)
  | some _ => none

/-- Opens a further table under a repeated header. -/
def Entries.openNext (key : String) (entries : Entries) : Option Entries :=
  match entries.lookup key with
  | none => some (put key (.tables [] []) entries)
  | some (.tables latest earlier) => some (put key (.tables [] (latest :: earlier)) entries)
  | some _ => none

mutual

def Node.toToml : Node → Toml
  | .value v => v
  | .table _ entries => .table (entriesToToml entries)
  | .tables latest earlier =>
    .arr ((tablesToToml earlier).reverse ++ [.table (entriesToToml latest)])

def entriesToToml : List (String × Node) → List (String × Toml)
  | [] => []
  | (key, node) :: rest => (key, node.toToml) :: entriesToToml rest

def tablesToToml : List (List (String × Node)) → List Toml
  | [] => []
  | entries :: rest => .table (entriesToToml entries) :: tablesToToml rest

end

/-- A statement of a document. A key is given by its parts. -/
inductive Statement
  | openTable (path : List String) (key : String)
  /-- The header of a further table of an array. -/
  | openNext (path : List String) (key : String)
  | assign (path : List String) (key : String) (v : Toml)

/-- Applies statements to a document; `current` is the path of the table that is open. -/
def build (current : List String) (entries : Entries) : List Statement → Option Entries
  | [] => some entries
  | .openTable path key :: rest => do
    let entries ← Entries.modify .passing (fun _ => Entries.openTable key) .header path entries
    build (path ++ [key]) entries rest
  | .openNext path key :: rest => do
    let entries ← Entries.modify .passing (fun _ => Entries.openNext key) .header path entries
    build (path ++ [key]) entries rest
  | .assign path key v :: rest => do
    let entries ← Entries.modify .passing
      (fun _ es => Entries.addDotted .header path key v es) .header current entries
    build current entries rest

def ofStatements? (statements : List Statement) : Option (List (String × Toml)) :=
  (build [] [] statements).map entriesToToml

end Toml

end Supervision
