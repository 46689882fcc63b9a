set_option autoImplicit false

/-!
# Configuration errors

Why a configuration document is refused. Every cause has a stable code; those that concern a document
carry its location, and those that concern one field name it.
-/

namespace PipelineLineage

/-- The stable codes of configuration and lineage errors. -/
inductive ErrorCode
  | missingRequiredField
  | typeMismatch
  | mutuallyExclusiveFields
  | missingCompanionField
  | unknownKind
  | duplicateAttribute
  | undeclaredAttribute
  | invalidDocument
  | unresolvedDependency
  | cyclicDependency
  | modelNotFound
  | missingNodeMetadata
  | invalidLocation
  deriving DecidableEq

namespace ErrorCode

def text : ErrorCode → String
  | .missingRequiredField => "MISSING_REQUIRED_FIELD"
  | .typeMismatch => "TYPE_MISMATCH"
  | .mutuallyExclusiveFields => "MUTUALLY_EXCLUSIVE_FIELDS"
  | .missingCompanionField => "MISSING_COMPANION_FIELD"
  | .unknownKind => "UNKNOWN_KIND"
  | .duplicateAttribute => "DUPLICATE_ATTRIBUTE"
  | .undeclaredAttribute => "UNDECLARED_ATTRIBUTE"
  | .invalidDocument => "INVALID_DOCUMENT"
  | .unresolvedDependency => "UNRESOLVED_DEPENDENCY"
  | .cyclicDependency => "CYCLIC_DEPENDENCY"
  | .modelNotFound => "MODEL_NOT_FOUND"
  | .missingNodeMetadata => "MISSING_NODE_METADATA"
  | .invalidLocation => "INVALID_LOCATION"

def all : List ErrorCode :=
  [.missingRequiredField, .typeMismatch, .mutuallyExclusiveFields, .missingCompanionField,
    .unknownKind, .duplicateAttribute, .undeclaredAttribute, .invalidDocument,
    .unresolvedDependency, .cyclicDependency, .modelNotFound, .missingNodeMetadata,
    .invalidLocation]

def ofText? (text : String) : Option ErrorCode :=
  all.find? fun code => code.text == text

theorem ofText?_text (code : ErrorCode) : ofText? code.text = some code := by
  cases code <;> decide

end ErrorCode

inductive ConfigError
  | missingRequiredField (field location : String)
  | typeMismatch (field location cause : String)
  | mutuallyExclusiveFields (first second location : String)
  /-- A field that another one needs is not set. -/
  | missingCompanionField (field trigger location : String)
  | unknownKind (family kind location : String)
  | duplicateAttribute (name : String)
  | undeclaredAttribute (name location : String)
  | invalidDocument (location found : String)
  deriving DecidableEq

namespace ConfigError

def code : ConfigError → ErrorCode
  | .missingRequiredField .. => .missingRequiredField
  | .typeMismatch .. => .typeMismatch
  | .mutuallyExclusiveFields .. => .mutuallyExclusiveFields
  | .missingCompanionField .. => .missingCompanionField
  | .unknownKind .. => .unknownKind
  | .duplicateAttribute .. => .duplicateAttribute
  | .undeclaredAttribute .. => .undeclaredAttribute
  | .invalidDocument .. => .invalidDocument

def message : ConfigError → String
  | .missingRequiredField field location => s!"{location}: required field '{field}' is missing"
  | .typeMismatch field location cause =>
    s!"{location}: field '{field}' has an invalid value: {cause}"
  | .mutuallyExclusiveFields first second location =>
    s!"{location}: fields '{first}' and '{second}' are mutually exclusive"
  | .missingCompanionField field trigger location =>
    s!"{location}: field '{field}' is required when '{trigger}' is set"
  | .unknownKind family kind location => s!"{location}: unknown {family} kind '{kind}'"
  | .duplicateAttribute name => s!"attribute '{name}' is declared more than once"
  | .undeclaredAttribute name location =>
    s!"{location}: attribute '{name}' is not declared for this document"
  | .invalidDocument location found =>
    s!"{location}: configuration root must be a map, found {found}"

/-- The field at fault, when the error concerns a single one. -/
def field? : ConfigError → Option String
  | .missingRequiredField field _ => some field
  | .typeMismatch field _ _ => some field
  | .missingCompanionField field _ _ => some field
  | .duplicateAttribute name => some name
  | .undeclaredAttribute name _ => some name
  | _ => none

/-- The location of the document at fault. -/
def location? : ConfigError → Option String
  | .missingRequiredField _ location => some location
  | .typeMismatch _ location _ => some location
  | .mutuallyExclusiveFields _ _ location => some location
  | .missingCompanionField _ _ location => some location
  | .unknownKind _ _ location => some location
  | .undeclaredAttribute _ location => some location
  | .invalidDocument location _ => some location
  | .duplicateAttribute _ => none

end ConfigError

end PipelineLineage
