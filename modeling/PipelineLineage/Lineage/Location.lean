import PipelineLineage.Text.Cut

set_option autoImplicit false

/-!
# Locations of an object store

A location is a scheme, a bucket and a path in it. Roots and parts are joined with single slashes,
and a location splits into its bucket and its path without the slashes around it.
-/

namespace PipelineLineage.Location

open Text

/-- A root and the parts below it, without doubled slashes where they meet. -/
def joinChars (root : List Char) (parts : List (List Char)) : List Char :=
  trimRight '/' root ++ parts.flatMap fun part => '/' :: trimBoth '/' part

def join (root : String) (parts : List String) : String :=
  String.ofList (joinChars root.toList (parts.map String.toList))

/-- The bucket of a location and its path, neither of them empty. -/
def splitChars (location : List Char) : Option (List Char × List Char) :=
  match splitFirst '/' (withoutScheme location) with
  | some (bucket, path) =>
    let inner := trimBoth '/' path
    if bucket.isEmpty || inner.isEmpty then none else some (bucket, inner)
  | none => none

def split (location : String) : Option (String × String) :=
  (splitChars location.toList).map fun (bucket, path) => (String.ofList bucket, String.ofList path)

/-- The bucket of a location, whether or not a path follows it. -/
def bucket? (location : String) : Option String :=
  let bucket := (withoutScheme location.toList).takeWhile (· != '/')
  if bucket.isEmpty then none else some (String.ofList bucket)

end PipelineLineage.Location
