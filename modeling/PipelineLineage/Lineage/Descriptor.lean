import PipelineLineage.Document
import PipelineLineage.Json.Printer

set_option autoImplicit false

/-!
# Descriptors

A descriptor is the document of a resource as lineage produces it: its kind, its name and the fields
of its kind. Two descriptors are the same when the compact texts of their fields are, names sorted at
every depth; of repeated descriptors the first one stays.
-/

namespace PipelineLineage

namespace Value

mutual

/-- The value with the fields of every map in increasing order of name. -/
def canonical : Value → Value
  | .list items => .list (canonicalItems items)
  | .map fields => .object (canonicalFields fields)
  | other => other

def canonicalItems : List Value → List Value
  | [] => []
  | item :: items => canonical item :: canonicalItems items

def canonicalFields : List (String × Value) → List (String × Value)
  | [] => []
  | (name, value) :: fields => (name, canonical value) :: canonicalFields fields

end

end Value

structure Descriptor where
  table : Table Value
  deriving DecidableEq

namespace Descriptor

def ofFields (fields : Fields) : Descriptor := ⟨.ofBindings fields⟩

def new (kind name : String) : Descriptor :=
  ofFields [("type", .string kind), ("name", .string name)]

/-- The descriptor with a field set, in place of an earlier value. -/
def withField (d : Descriptor) (name : String) (value : Value) : Descriptor :=
  ⟨d.table.insert name value⟩

/-- The field that makes a task wait across pipelines. -/
def followField : String := "follow_external_dependency"

/-- Sets the following of outside dependencies when it is wanted, and leaves it alone otherwise. -/
def following (d : Descriptor) (follow : Bool) : Descriptor :=
  if follow then d.withField followField (.bool true) else d

def get? (d : Descriptor) (name : String) : Option Value := d.table.find? name

def getString? (d : Descriptor) (name : String) : Option String :=
  (d.get? name).bind Value.string?

def kind (d : Descriptor) : String := (d.getString? "type").getD ""

def name (d : Descriptor) : String := (d.getString? "name").getD ""

def size (d : Descriptor) : Nat := d.table.entries.length

def toValue (d : Descriptor) : Value := .map d.table.entries

def ofDocument? (document : Document) : Option Descriptor :=
  match document with
  | .table _ =>
    match document.keep with
    | some (.map fields) => some (ofFields fields)
    | _ => none
  | _ => none

/-- The text by which descriptors are compared. -/
def identity (d : Descriptor) : List Char := Json.render d.toValue.canonical

/-- The descriptors whose identity is not among the given ones and did not occur before. -/
def dedupFrom (seen : List (List Char)) : List Descriptor → List Descriptor
  | [] => []
  | d :: rest =>
    if d.identity ∈ seen then dedupFrom seen rest
    else d :: dedupFrom (d.identity :: seen) rest

/-- Drops every descriptor that is the same as an earlier one. -/
def dedup (descriptors : List Descriptor) : List Descriptor := dedupFrom [] descriptors

end Descriptor

end PipelineLineage
