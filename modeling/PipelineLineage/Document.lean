import PipelineLineage.Value.Basic

set_option autoImplicit false

/-!
# Documents as written

A document keeps what a reader of records must see and a value no longer shows: the order of entries,
repeated names, and parts that are well-formed text but have no value. Keeping a document gives its
value, and fails where it holds an unreadable part; a part that nobody keeps may be unreadable.

Records are read field by field. A table gives a field by name, at most once, and other names are
ignored; a list gives the fields in their declared order and may end early.
-/

namespace PipelineLineage

inductive Document
  | null
  | bool (value : Bool)
  | number (value : Number)
  /-- A float that is infinite or not a number; kept, it is null. -/
  | nonfinite
  | string (value : String)
  | list (items : List Document)
  | table (entries : List (String × Document))
  /-- Well-formed text that stands for no value. -/
  | unreadable

namespace Document

mutual

/-- The value of a document. The last entry of a name counts. -/
def keep : Document → Option Value
  | .null => some .null
  | .bool b => some (.bool b)
  | .number n => some (.number n)
  | .nonfinite => some .null
  | .string s => some (.string s)
  | .list items => (keepItems items).map .list
  | .table entries => (keepEntries entries).map .object
  | .unreadable => none

def keepItems : List Document → Option (List Value)
  | [] => some []
  | item :: items =>
    match item.keep, keepItems items with
    | some value, some values => some (value :: values)
    | _, _ => none

def keepEntries : List (String × Document) → Option (List (String × Value))
  | [] => some []
  | (name, entry) :: entries =>
    match entry.keep, keepEntries entries with
    | some value, some values => some ((name, value) :: values)
    | _, _ => none

end

mutual

/-- The document that writes a value. -/
def ofValue : Value → Document
  | .null => .null
  | .bool b => .bool b
  | .number n => .number n
  | .string s => .string s
  | .list items => .list (ofItems items)
  | .map fields => .table (ofFields fields)

def ofItems : List Value → List Document
  | [] => []
  | item :: items => ofValue item :: ofItems items

def ofFields : List (String × Value) → List (String × Document)
  | [] => []
  | (name, value) :: fields => (name, ofValue value) :: ofFields fields

end

mutual

/-- The document with every container below the given number of levels made unreadable. -/
def within : Nat → Document → Document
  | 0, .list _ => .unreadable
  | 0, .table _ => .unreadable
  | levels + 1, .list items => .list (withinItems levels items)
  | levels + 1, .table entries => .table (withinEntries levels entries)
  | _, document => document

def withinItems (levels : Nat) : List Document → List Document
  | [] => []
  | item :: items => within levels item :: withinItems levels items

def withinEntries (levels : Nat) : List (String × Document) → List (String × Document)
  | [] => []
  | (name, entry) :: entries => (name, within levels entry) :: withinEntries levels entries

end

def string? : Document → Option String
  | .string s => some s
  | _ => none

def bool? : Document → Option Bool
  | .bool b => some b
  | _ => none

/-- A string, or null for its absence. -/
def nullableString? : Document → Option (Option String)
  | .null => some none
  | .string s => some (some s)
  | _ => none

/-- A list, each item read by the same rule. -/
def listOf? {α : Type} (read : Document → Option α) : Document → Option (List α)
  | .list items => items.mapM read
  | _ => none

/-- The entries of a table in written order, each read by the same rule. -/
def entriesOf? {α : Type} (read : Document → Option α) : Document → Option (List (String × α))
  | .table entries => entries.mapM fun (name, entry) => (read entry).map (name, ·)
  | _ => none

/-- A table keyed by name, of which the last entry for a name counts. -/
def tableOf? {α : Type} (read : Document → Option α) (document : Document) : Option (Table α) :=
  (document.entriesOf? read).map Table.ofBindings

/-- The document of a record field, when the record gives it. -/
abbrev Record := String → Option Document

/-- The fields of a record with the declared names. Items of a list beyond the last field are an
error unless surplus is allowed. -/
def record? (names : List String) (document : Document) (allowsSurplus : Bool := false) :
    Option Record :=
  match document with
  | .table entries =>
    if names.all fun name => (entries.filter (·.1 == name)).length ≤ 1 then
      some fun name => entries.lookup name
    else none
  | .list items =>
    if items.length ≤ names.length || allowsSurplus then
      some fun name => (names.zip items).lookup name
    else none
  | _ => none

/-- A field that must be given. -/
def Record.required {α : Type} (record : Record) (name : String) (read : Document → Option α) :
    Option α :=
  (record name).bind read

/-- A field that has a default when it is not given. -/
def Record.orElse {α : Type} (record : Record) (name : String) (read : Document → Option α)
    (default : α) : Option α :=
  match record name with
  | none => some default
  | some document => read document

/-- A string field that may be null or not given. -/
def Record.nullableString (record : Record) (name : String) : Option (Option String) :=
  record.orElse name nullableString? none

end Document

end PipelineLineage
