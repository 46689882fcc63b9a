set_option autoImplicit false

/-!
# Slash-separated paths

Joining a name to a directory, the components of a path and what remains of them below a base
directory, and the lexical normal form of a location. Nothing here looks at a file system.
-/

namespace PipelineLineage.Path

/-- A name inside a directory. An absolute name stands for itself, and the text of the directory is
kept as it is. -/
def join (directory name : String) : String :=
  let d := directory.toList
  let n := name.toList
  if n.head? = some '/' then name
  else if d.isEmpty || d.getLast? = some '/' then directory ++ name
  else directory ++ "/" ++ name

inductive Component
  | root
  | current
  | parent
  | normal (name : String)
  deriving DecidableEq

/-- The component that a segment stands for after the start of a path; empty segments and single
points stand for none. -/
def ofSegment : List Char → Option Component
  | [] => none
  | ['.'] => none
  | ['.', '.'] => some .parent
  | name => some (.normal (String.ofList name))

/-- The components of a path. A single point counts only as the first segment. -/
def components (path : String) : List Component :=
  match path.toList.splitOn '/' with
  | [] => []
  | [[]] => []
  | [] :: segments => .root :: segments.filterMap ofSegment
  | ['.'] :: segments => .current :: segments.filterMap ofSegment
  | segments => segments.filterMap ofSegment

/-- What remains of a list after a base that it starts with. -/
def below? (base : List Component) (path : List Component) : Option (List Component) :=
  if base.isPrefixOf path then some (path.drop base.length) else none

/-- The name that a component gives; the root and the current directory give none. -/
def Component.name? : Component → Option String
  | .normal name => some name
  | .parent => some ".."
  | .root => none
  | .current => none

/-- The names of the components below a base directory, or of the whole path when it does not lie
below the base. -/
def namesBelow (base path : String) : List String :=
  let whole := components path
  ((below? (components base) whole).getD whole).filterMap Component.name?

/-- Follows one segment from a stack of segments, the last one on top. Stepping up from the root
stays there; stepping up from nothing, or from a step up, is kept when the path is relative. -/
def follow (absolute : Bool) (stack : List (List Char)) (segment : List Char) :
    List (List Char) :=
  match segment with
  | [] => stack
  | ['.'] => stack
  | ['.', '.'] =>
    match stack with
    | [] => if absolute then [] else [['.', '.']]
    | top :: rest =>
      if top ≠ ['.', '.'] then rest
      else if absolute then top :: rest
      else ['.', '.'] :: top :: rest
  | name => name :: stack

def normalSegments (absolute : Bool) (segments : List (List Char)) : List (List Char) :=
  (segments.foldl (follow absolute) []).reverse

def normalizeChars (path : List Char) : List Char :=
  let absolute := path.head? = some '/'
  let joined := ['/'].intercalate (normalSegments absolute (path.splitOn '/'))
  if absolute then '/' :: joined
  else if joined.isEmpty then ['.']
  else joined

/-- The normal form of a location: no empty segment, no single point, and steps up only at the
start of a relative one. -/
def normalize (path : String) : String :=
  String.ofList (normalizeChars path.toList)

end PipelineLineage.Path
