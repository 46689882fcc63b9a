import PipelineLineage.Table

set_option autoImplicit false

/-!
# Values of a document

The dynamic values that configuration documents hold. An integer and a float are never equal, and a
float is held as the bits of a double. A map that is made of fields in any order has them in increasing
order of name. `Value.Sorted` says so at every depth, and holds of every value that is read from a text.
-/

namespace PipelineLineage

inductive Number
  | int (value : Int)
  | float (bits : UInt64)
  deriving DecidableEq

inductive Value
  | null
  | bool (value : Bool)
  | number (value : Number)
  | string (value : String)
  | list (items : List Value)
  | map (fields : List (String × Value))

/-- The fields of a map value. -/
abbrev Fields := List (String × Value)

namespace Value

def int (n : Int) : Value := .number (.int n)

/-- The null value stands for an absent option. -/
def ofOption {α : Type} (encode : α → Value) : Option α → Value
  | none => .null
  | some a => encode a

/-- A map value from its fields in any order. -/
def object (fields : List (String × Value)) : Value := .map (bindAll fields)

/-- The word for the type of a value in messages. -/
def kindName : Value → String
  | .null => "null"
  | .bool _ => "bool"
  | .number _ => "number"
  | .string _ => "string"
  | .list _ => "list"
  | .map _ => "map"

/-- The field of a map value; other values have none. -/
def get? (name : String) : Value → Option Value
  | .map fields => fields.lookup name
  | _ => none

def string? : Value → Option String
  | .string s => some s
  | _ => none

mutual

/-- Every map at every depth has its fields in strictly increasing order of name. -/
def Sorted : Value → Prop
  | .null | .bool _ | .number _ | .string _ => True
  | .list items => SortedItems items
  | .map fields => Ordered fields ∧ SortedFields fields

def SortedItems : List Value → Prop
  | [] => True
  | item :: items => item.Sorted ∧ SortedItems items

def SortedFields : List (String × Value) → Prop
  | [] => True
  | (_, value) :: fields => value.Sorted ∧ SortedFields fields

end

theorem sortedItems_iff {items : List Value} : SortedItems items ↔ ∀ item ∈ items, item.Sorted := by
  induction items with
  | nil => simp [SortedItems]
  | cons first rest ih => rw [SortedItems, List.forall_mem_cons, ih]

theorem sortedFields_iff {fields : List (String × Value)} :
    SortedFields fields ↔ ∀ entry ∈ fields, entry.2.Sorted := by
  induction fields with
  | nil => simp [SortedFields]
  | cons first rest ih => rw [SortedFields, List.forall_mem_cons, ih]

mutual

def beq : Value → Value → Bool
  | .null, .null => true
  | .bool a, .bool b => a == b
  | .number a, .number b => decide (a = b)
  | .string a, .string b => a == b
  | .list a, .list b => beqItems a b
  | .map a, .map b => beqFields a b
  | _, _ => false

def beqItems : List Value → List Value → Bool
  | [], [] => true
  | a :: as, b :: bs => beq a b && beqItems as bs
  | _, _ => false

def beqFields : List (String × Value) → List (String × Value) → Bool
  | [], [] => true
  | (k, a) :: as, (l, b) :: bs => k == l && beq a b && beqFields as bs
  | _, _ => false

end

mutual

theorem beq_iff : (a b : Value) → (a.beq b = true ↔ a = b)
  | .null, b => by cases b <;> simp [beq]
  | .bool _, b => by cases b <;> simp [beq]
  | .number _, b => by cases b <;> simp [beq]
  | .string _, b => by cases b <;> simp [beq]
  | .list items, b => by cases b <;> simp [beq, beqItems_iff items]
  | .map fields, b => by cases b <;> simp [beq, beqFields_iff fields]

theorem beqItems_iff : (a b : List Value) → (beqItems a b = true ↔ a = b)
  | [], b => by cases b <;> simp [beqItems]
  | a :: as, b => by cases b <;> simp [beqItems, beq_iff a, beqItems_iff as]

theorem beqFields_iff : (a b : List (String × Value)) → (beqFields a b = true ↔ a = b)
  | [], b => by cases b <;> simp [beqFields]
  | (k, a) :: as, b => by
    cases b <;> simp [beqFields, beq_iff a, beqFields_iff as, Prod.ext_iff]

end

instance : DecidableEq Value := fun a b => decidable_of_iff (a.beq b = true) (beq_iff a b)

end Value

end PipelineLineage
