import PipelineLineage.Config.Attribute

set_option autoImplicit false

/-!
# Validated configuration documents

Validating a document resolves every attribute once, in order of declaration, and keeps the results:
a configuration that exists is a document that passed. An attribute takes the value at its place in
the document, else its default, else its automatic value; without any of these it is an error when
it is required and null otherwise. A value that is present passes the attribute's validator, and null
stands as the value of an attribute that allows it. Reading a configuration never evaluates a
default again.
-/

namespace PipelineLineage

/-- The value of a field below a path of containers. -/
def lookup (raw : Value) : List String → String → Option Value
  | [], name => raw.get? name
  | key :: path, name => (raw.get? key).bind fun container => lookup container path name

/-- An attribute as resolving leaves it, and its value. A default that was evaluated has advanced. -/
structure Resolved where
  attr : Attribute
  value : Value

namespace Attribute

/-- The value of an attribute that the document does not give. -/
def resolveMissing (location : String) (a : Attribute) : Except ConfigError Resolved :=
  match a.default with
  | some default => .ok ⟨a.advance, default.value⟩
  | none =>
    match a.auto with
    | some value => .ok ⟨a, value⟩
    | none =>
      if a.required then .error (.missingRequiredField a.qualifiedName location)
      else .ok ⟨a, .null⟩

def resolve (location : String) (raw : Value) (a : Attribute) : Except ConfigError Resolved :=
  match lookup raw a.parentPath a.name with
  | none => a.resolveMissing location
  | some .null => if a.nullable then .ok ⟨a, .null⟩ else a.resolveMissing location
  | some value =>
    match a.validate value with
    | .ok normal => .ok ⟨a, normal⟩
    | .error cause => .error (.typeMismatch a.qualifiedName location cause)

/-- Resolves attributes in order up to the first that fails: those resolved so far, and the
failure. -/
def resolveAll (location : String) (raw : Value) :
    List Attribute → List Resolved × Option ConfigError
  | [] => ([], none)
  | a :: rest =>
    match a.resolve location raw with
    | .error error => ([], some error)
    | .ok resolved =>
      let (others, failure) := resolveAll location raw rest
      (resolved :: others, failure)

end Attribute

/-- A document that passed: every attribute with its value, in order of declaration. -/
structure Config where
  location : String
  raw : Fields
  resolved : List Resolved

namespace Config

/-- Validates a document. The root must be a map, and the first attribute that does not resolve is
the error. -/
def validate (location : String) (raw : Value) (attributes : AttributeSet) :
    Except ConfigError Config :=
  match raw with
  | .map fields =>
    match Attribute.resolveAll location raw attributes.attributes with
    | (resolved, none) => .ok ⟨location, fields, resolved⟩
    | (_, some error) => .error error
  | other => .error (.invalidDocument location other.kindName)

def names (c : Config) : List String := c.resolved.map fun r => r.attr.name

def get (c : Config) (name : String) : Except ConfigError Value :=
  match c.resolved.find? fun r => r.attr.name == name with
  | some r => .ok r.value
  | none => .error (.undeclaredAttribute name c.location)

def mismatch (c : Config) (name what : String) (found : Value) : ConfigError :=
  .typeMismatch name c.location (Validator.expected what found)

/-- A missing value, under the qualified name of its attribute. -/
def missing (c : Config) (name : String) : ConfigError :=
  let field := match c.resolved.find? fun r => r.attr.name == name with
    | some r => r.attr.qualifiedName
    | none => name
  .missingRequiredField field c.location

/-- The value of an attribute by a partial reading of non-null values; null is absence. -/
def getAs {α : Type} (c : Config) (what : String) (read : Value → Option α) (name : String) :
    Except ConfigError (Option α) :=
  match c.get name with
  | .error error => .error error
  | .ok .null => .ok none
  | .ok value =>
    match read value with
    | some a => .ok (some a)
    | none => .error (c.mismatch name what value)

def getString (c : Config) (name : String) : Except ConfigError (Option String) :=
  c.getAs "a string" Value.string? name

def requireString (c : Config) (name : String) : Except ConfigError String :=
  match c.getString name with
  | .error error => .error error
  | .ok none => .error (c.missing name)
  | .ok (some s) => .ok s

def getInt (c : Config) (name : String) : Except ConfigError (Option Int) :=
  c.getAs "an integer" (fun | .number n => n.int64? | _ => none) name

def getBool (c : Config) (name : String) : Except ConfigError (Option Bool) :=
  c.getAs "a boolean" (fun | .bool b => some b | _ => none) name

def getMap (c : Config) (name : String) : Except ConfigError (Option Fields) :=
  c.getAs "a map" (fun | .map fields => some fields | _ => none) name

def getList (c : Config) (name : String) : Except ConfigError (Option (List Value)) :=
  c.getAs "a list" (fun | .list items => some items | _ => none) name

/-- The instant of an attribute that holds a normalised timestamp. -/
def getInstant (c : Config) (name : String) : Except ConfigError (Option Instant) :=
  match c.getString name with
  | .error error => .error error
  | .ok none => .ok none
  | .ok (some s) =>
    match Validator.parseTimestamp s with
    | some instant => .ok (some instant)
    | none =>
      .error (.typeMismatch name c.location s!"expected a normalised timestamp, found '{s}'")

def isSet (c : Config) (name : String) : Except ConfigError Bool :=
  match c.get name with
  | .error error => .error error
  | .ok value => .ok (value != .null)

/-- Fails when both of two attributes are set. -/
def ensureExclusive (c : Config) (first second : String) : Except ConfigError Unit := do
  if ← c.isSet first then
    if ← c.isSet second then
      throw (.mutuallyExclusiveFields first second c.location)

/-- Fails at the first trigger that is set while the field is not. -/
def ensureCompanion (c : Config) (field : String) : List String → Except ConfigError Unit
  | [] => .ok ()
  | trigger :: triggers => do
    if ← c.isSet trigger then
      if !(← c.isSet field) then
        throw (.missingCompanionField field trigger c.location)
    c.ensureCompanion field triggers

end Config

end PipelineLineage
