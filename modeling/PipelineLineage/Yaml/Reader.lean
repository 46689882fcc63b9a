import PipelineLineage.Yaml.Node
import PipelineLineage.Yaml.Scalar

set_option autoImplicit false

/-!
# Reading YAML

The value of a text that holds one document at most. The keys of mappings are the texts of scalars,
of which the last one of a name counts; collections may be nested up to a limit. Tags of the format
itself choose the type of a scalar, and no others have a meaning.
-/

namespace PipelineLineage.Yaml

/-- How many collections may stand inside each other. -/
def depthLimit : Nat := 128

/-- Whether a tag is one that only an application would know. -/
def isLocal (tag : Option (List Char)) : Bool := tag.any fun text => text.head? = some '!'

def scalarValue? (tag : Option (List Char)) (isPlain : Bool) (text : List Char) : Option Value :=
  match tag with
  | some tag =>
    if standardStart.isPrefixOf tag then
      taggedValue? (String.ofList (tag.drop standardStart.length)) text
    else some (.string (String.ofList text))
  | none => if isPlain then plainValue? text else some (.string (String.ofList text))

namespace Node

/-- The name that a key writes. -/
def name? : Node → Option String
  | .scalar _ _ text => some (String.ofList text)
  | .sequence .. => none
  | .mapping .. => none

/-- The value of a node with at most so many collections inside each other. -/
def value? : Nat → Node → Option Value
  | _, .scalar tag isPlain text => if isLocal tag then none else scalarValue? tag isPlain text
  | 0, _ => none
  | depth + 1, .sequence tag items =>
    if isLocal tag then none else (items.mapM (value? depth)).map .list
  | depth + 1, .mapping tag entries =>
    if isLocal tag then none
    else
      (entries.mapM fun (entry : Node × Node) => do
        let name ← entry.1.name?
        let value ← value? depth entry.2
        return (name, value)).map Value.object

end Node

def read? (text : String) : Option Value :=
  match (Token.ofText? text).bind Node.ofTokens? with
  | some node => node.value? depthLimit
  | none => none

end PipelineLineage.Yaml
