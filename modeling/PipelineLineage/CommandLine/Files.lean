set_option autoImplicit false

/-!
# Files of a run

What a run sees of the file system: for each path the text that stands there, or why none can be
read. A tree of files answers so for every path: relative ones start at its root, absolute ones at
the root of the system.
-/

namespace PipelineLineage.CommandLine

inductive FileError
  | notFound
  | notDirectory
  | isDirectory
  | nameTooLong
  /-- Another failure, in the words of the system. -/
  | other (message : String)
  deriving DecidableEq

def FileError.message : FileError → String
  | .notFound => "No such file or directory (os error 2)"
  | .notDirectory => "Not a directory (os error 20)"
  | .isDirectory => "Is a directory (os error 21)"
  | .nameTooLong => "File name too long (os error 36)"
  | .other message => message

abbrev Files := String → Except FileError String

/-- The number of bytes at which a path is too long. -/
def pathLimit : Nat := 4096

/-- The greatest number of bytes of a name. -/
def nameLimit : Nat := 255

/-- The files below a directory: their segments and texts. -/
structure FileTree where
  files : List (List (List Char) × String)
  /-- The places of directories that may be empty. -/
  directories : List (List (List Char)) := []
  /-- Whether the root is that of the system, above which there is only itself. -/
  whole : Bool := false

namespace FileTree

/-- The segments of a path that lead anywhere. -/
def segmentsOf (path : List Char) : List (List Char) :=
  (path.splitOn '/').filter fun segment => !segment.isEmpty && segment ≠ ['.']

def ofPaths (files : List (String × String)) : FileTree :=
  { files := files.map fun (path, text) => (segmentsOf path.toList, text) }

/-- What every system holds: a place for temporary files, and a device that reads as empty. -/
def system : FileTree where
  files := [(["dev".toList, "null".toList], "")]
  directories := [["tmp".toList]]
  whole := true

def file? (t : FileTree) (place : List (List Char)) : Option String :=
  t.files.lookup place

/-- Whether a place is a directory, as every place is that some file lies below. The root is always
a directory. -/
def isDirectory (t : FileTree) (place : List (List Char)) : Bool :=
  place.isEmpty || t.directories.contains place ||
    t.files.any fun (path, _) => place.isPrefixOf path && place.length < path.length

def isTooLong (segment : List Char) : Bool := nameLimit < (String.ofList segment).utf8ByteSize

/-- Follows segments from a directory above the root of a tree, of which nothing is known but that
directories lie above it. -/
def followAbove : List (List Char) → Except FileError String
  | [] => .error .isDirectory
  | segment :: rest =>
    if segment.isEmpty || segment = ['.'] || segment = ['.', '.'] then followAbove rest
    else if isTooLong segment then .error .nameTooLong
    else .error .notFound

/-- Follows segments from a directory or a file of the tree. -/
def follow (t : FileTree) (place : List (List Char)) : List (List Char) → Except FileError String
  | [] =>
    match t.file? place with
    | some text => .ok text
    | none => .error .isDirectory
  | segment :: rest =>
    if !t.isDirectory place then .error .notDirectory
    else if segment.isEmpty || segment = ['.'] then t.follow place rest
    else if segment = ['.', '.'] then
      if place.isEmpty && !t.whole then followAbove rest else t.follow place.dropLast rest
    else if isTooLong segment then .error .nameTooLong
    else
      let inner := place ++ [segment]
      if (t.file? inner).isSome || t.isDirectory inner then t.follow inner rest
      else .error .notFound

def read (t : FileTree) : Files := fun path =>
  if path.isEmpty then .error .notFound
  else if pathLimit ≤ path.utf8ByteSize then .error .nameTooLong
  else
    let segments := path.toList.splitOn '/'
    if path.toList.head? = some '/' then system.follow [] segments else t.follow [] segments

end FileTree

end PipelineLineage.CommandLine
