import PipelineLineage.Config.Error
import PipelineLineage.Config.Validator

set_option autoImplicit false

/-!
# Attributes

An attribute describes one named field of a configuration document: whether it is required, whether
null may stand as its value, what fills it in when it is missing, how a present value is checked, and
below which containers it is stored. An attribute set holds the attributes of one kind of document in
order of declaration, no two of one name.
-/

namespace PipelineLineage

inductive Default
  | fixed (value : Value)
  /-- A provider answers a sequence of evaluations of its own; `used` of them have been made. What providers
  answer that share a state depends on the order of evaluation: see `Attribute.draw`. -/
  | provided (answer : Nat → Value) (used : Nat)

namespace Default

def value : Default → Value
  | .fixed value => value
  | .provided answer used => answer used

def next : Default → Default
  | .fixed value => .fixed value
  | .provided answer used => .provided answer (used + 1)

end Default

structure Attribute where
  name : String
  required : Bool := true
  /-- Null may stand as the value. -/
  nullable : Bool := false
  default : Option Default := none
  /-- A value that follows from what the document describes, such as its kind. -/
  auto : Option Value := none
  validator : Option Validator := none
  /-- The containers below which the field is stored, outermost first. -/
  parentPath : List String := []
  help : Option String := none

namespace Attribute

def validate (a : Attribute) (value : Value) : Except String Value :=
  match a.validator with
  | some validator => validator value
  | none => .ok value

/-- The path of the field in the document, its steps joined by points. -/
def qualifiedName (a : Attribute) : String :=
  ".".intercalate (a.parentPath ++ [a.name])

def advance (a : Attribute) : Attribute :=
  { a with default := a.default.map Default.next }

/-- The top-level key at which the field is found: its outermost container, or the field itself. -/
def topLevelKey (a : Attribute) : String :=
  a.parentPath.headD a.name

end Attribute

/-- Attributes in order of declaration, their names distinct. -/
structure AttributeSet where
  attributes : List Attribute
  distinct : (attributes.map Attribute.name).Nodup

namespace AttributeSet

def empty : AttributeSet := ⟨[], List.nodup_nil⟩

def names (s : AttributeSet) : List String := s.attributes.map Attribute.name

def size (s : AttributeSet) : Nat := s.attributes.length

def find? (s : AttributeSet) (name : String) : Option Attribute :=
  s.attributes.find? fun a => a.name == name

/-- Puts an attribute at the end, unless its name is taken. -/
def add (s : AttributeSet) (a : Attribute) : Except ConfigError AttributeSet :=
  if h : a.name ∈ s.names then .error (.duplicateAttribute a.name)
  else .ok ⟨s.attributes ++ [a], by
    rw [List.map_append]
    refine List.nodup_append.2 ⟨s.distinct, by simp, ?_⟩
    intro x hx y hy hxy
    simp only [List.map_cons, List.map_nil, List.mem_singleton] at hy
    exact h (hy ▸ hxy ▸ hx)⟩

/-- Adds attributes one after another; the first whose name is taken is the error. -/
def extend (s : AttributeSet) : List Attribute → Except ConfigError AttributeSet
  | [] => .ok s
  | a :: rest =>
    match s.add a with
    | .ok s => s.extend rest
    | .error error => .error error

def ofAttributes (attributes : List Attribute) : Except ConfigError AttributeSet :=
  empty.extend attributes

/-- Whether some attribute is found at or below a top-level key. -/
def claims (s : AttributeSet) (key : String) : Bool :=
  s.attributes.any fun a => a.topLevelKey == key

/-- The set with one evaluation made of the defaults of the attributes that the test picks. -/
def advance (s : AttributeSet) (picks : Attribute → Bool) : AttributeSet :=
  ⟨s.attributes.map fun a => if picks a then a.advance else a, by
    have : (s.attributes.map fun a => if picks a then a.advance else a).map Attribute.name =
        s.attributes.map Attribute.name := by
      rw [List.map_map]
      refine List.map_congr_left fun a _ => ?_
      simp only [Function.comp]
      split <;> rfl
    rw [this]
    exact s.distinct⟩

end AttributeSet

end PipelineLineage
