import PipelineLineage.Document

set_option autoImplicit false

/-!
# Tables of TOML under construction

A TOML text builds its tables piece by piece: a header opens a table, dotted keys reach into tables
that they make themselves, and an array of tables grows by its last element. What was made by one of
these ways may not be reopened by another, so the tree remembers how each table came about.
-/

namespace PipelineLineage.Toml

/-- How a table came about. -/
inductive Origin
  /-- By its own header, or in braces. -/
  | header
  /-- As a container that a header for an inner table passed through. -/
  | passed
  /-- As a container that a dotted key passed through. -/
  | dotted
  deriving DecidableEq

inductive Node
  /-- A finished value. -/
  | value (document : Document)
  | table (origin : Origin) (entries : List (String × Node))
  /-- An array of tables, the last one first. -/
  | tables (elements : List (List (String × Node)))

abbrev Entries := List (String × Node)

namespace Entries

/-- The entries with the first one of a name replaced, or with a new one at the end. -/
def put (entries : Entries) (key : String) (node : Node) : Entries :=
  match entries with
  | [] => [(key, node)]
  | (k, n) :: rest => if k = key then (k, node) :: rest else (k, n) :: Entries.put rest key node

/-- Gives a dotted key its value. Containers on the way are made, or must be containers that no
header of their own opened; the innermost one must have been made by a dotted key. -/
def assign (entries : Entries) : List String → Node → Option Entries
  | [], _ => none
  | [key], node =>
    match entries.lookup key with
    | none => some (entries.put key node)
    | some _ => none
  | key :: path, node =>
    match entries.lookup key with
    | none => (assign [] path node).map fun inner => entries.put key (.table .dotted inner)
    | some (.table origin inner) =>
      if origin = .header || (path.length = 1 && origin ≠ .dotted) then none
      else (assign inner path node).map fun inner => entries.put key (.table origin inner)
    | some (.tables (last :: others)) =>
      if path.length = 1 then none
      else (assign last path node).map fun last => entries.put key (.tables (last :: others))
    | some _ => none

/-- Changes the entries of the container at a path. Containers on the way are made when they are
missing; of an array of tables the last one is meant. -/
def modifyAt (entries : Entries) : List String → (Entries → Option Entries) → Option Entries
  | [], change => change entries
  | key :: path, change =>
    match entries.lookup key with
    | none => (modifyAt [] path change).map fun inner => entries.put key (.table .passed inner)
    | some (.table origin inner) =>
      (modifyAt inner path change).map fun inner => entries.put key (.table origin inner)
    | some (.tables (last :: others)) =>
      (modifyAt last path change).map fun last => entries.put key (.tables (last :: others))
    | some _ => none

/-- Opens the table of a header: a new one, or one that was only passed through. -/
def openTable (key : String) (entries : Entries) : Option Entries :=
  match entries.lookup key with
  | none => some (entries.put key (.table .header []))
  | some (.table .passed inner) => some (entries.put key (.table .header inner))
  | some _ => none

/-- Opens a further element of an array of tables. -/
def openElement (key : String) (entries : Entries) : Option Entries :=
  match entries.lookup key with
  | none => some (entries.put key (.tables [[]]))
  | some (.tables elements) => some (entries.put key (.tables ([] :: elements)))
  | some _ => none

end Entries

mutual

/-- The document of a finished node. -/
def Node.document : Node → Document
  | .value document => document
  | .table _ entries => .table (entriesDocument entries)
  | .tables elements => .list (elementsDocument elements).reverse

def entriesDocument : List (String × Node) → List (String × Document)
  | [] => []
  | (name, node) :: entries => (name, node.document) :: entriesDocument entries

def elementsDocument : List (List (String × Node)) → List Document
  | [] => []
  | element :: elements => .table (entriesDocument element) :: elementsDocument elements

end

/-- The document of a table in braces, from the assignments in it. -/
def bracedTable (assignments : List (List String × Document)) : Option Document :=
  (assignments.foldlM (fun entries assignment =>
    Entries.assign entries assignment.1 (.value assignment.2)) []).map
    fun entries => .table (entriesDocument entries)

end PipelineLineage.Toml
