import PipelineLineage.Config.Error
import PipelineLineage.Table
import PipelineLineage.Value.Basic

set_option autoImplicit false

/-!
# Registries of kinds

A registry maps the kinds of one family to their constructors. A document names its kind in the field
`type`. A later registration of a kind replaces the earlier one.
-/

namespace PipelineLineage

/-- What a constructor must know of its surroundings: where the document comes from. -/
class Located (Context : Type) where
  location : Context → String

abbrev Constructor (Context Entity : Type) := Value → Context → Except ConfigError Entity

structure Registry (Context Entity : Type) where
  /-- The word for the family in messages. -/
  family : String
  constructors : Table (Constructor Context Entity)

namespace Registry

variable {Context Entity : Type}

def empty (family : String) : Registry Context Entity := ⟨family, .empty⟩

def register (r : Registry Context Entity) (kind : String)
    (constructor : Constructor Context Entity) : Registry Context Entity :=
  { r with constructors := r.constructors.insert kind constructor }

def registerAll (r : Registry Context Entity)
    (constructors : List (String × Constructor Context Entity)) : Registry Context Entity :=
  constructors.foldl (fun r entry => r.register entry.1 entry.2) r

def contains (r : Registry Context Entity) (kind : String) : Bool :=
  (r.constructors.find? kind).isSome

def kinds (r : Registry Context Entity) : List String := r.constructors.keys

variable [Located Context]

def create (r : Registry Context Entity) (kind : String) (raw : Value) (context : Context) :
    Except ConfigError Entity :=
  match r.constructors.find? kind with
  | some constructor => constructor raw context
  | none => .error (.unknownKind r.family kind (Located.location context))

/-- Constructs the entity of a document, of the kind that its field `type` names. -/
def createFromConfig (r : Registry Context Entity) (raw : Value) (context : Context) :
    Except ConfigError Entity :=
  match raw.get? "type" with
  | some (.string kind) => r.create kind raw context
  | some other =>
    .error (.typeMismatch "type" (Located.location context)
      ("expected a string, found " ++ other.kindName))
  | none => .error (.missingRequiredField "type" (Located.location context))

end Registry

end PipelineLineage
