import PipelineLineage.Path

set_option autoImplicit false

/-!
# What resources stand for

The external things that tasks read and write, and their three names: the alias, by which two
resources are the same, the name used in templates, and the name of the outside dependency.
-/

namespace PipelineLineage

inductive Target
  /-- A location in an object store; bucket and path are in normal form. -/
  | s3 (region : Option String) (protocol bucket path : String)
  /-- A table of the warehouse catalog. -/
  | athena (schema table : String)
  /-- A table of the lake catalog. -/
  | databricks (catalog schema table : String)
  /-- A table of the key-value store. -/
  | dynamo (account region : Option String) (table : String)
  /-- A notification topic. -/
  | sns (account region : Option String) (topic : String)
  /-- Nothing that could be waited on. -/
  | dummy (name : String)
  /-- A target of a kind that is not built in, with its names. -/
  | foreign (kind aliasName renderedName externalName : String)
  deriving DecidableEq

namespace Target

def kind : Target → String
  | .s3 .. => "s3"
  | .athena .. => "athena"
  | .databricks .. => "databricks"
  | .dynamo .. => "dynamo"
  | .sns .. => "sns"
  | .dummy .. => "dummy"
  | .foreign kind .. => kind

/-- A location in its bucket; an absolute path stands for itself. -/
def storeLocation (bucket path : String) : String :=
  if path.toList.head? = some '/' then path else bucket ++ "/" ++ path

def hyphenated (s : String) : String :=
  String.ofList (s.toList.map fun c => if c = '/' then '-' else c)

/-- A scheme and the parts that are given, joined by hyphens. -/
def joinExternal (scheme : String) (parts : List (Option String)) : String :=
  scheme ++ "-" ++ "-".intercalate ((parts.filterMap id).filter fun part => part ≠ "")

/-- A name within an account and a region, which are left out together. -/
def scopedName (account region : Option String) (name : String) : String :=
  if account.isNone && region.isNone then name
  else ":".intercalate [account.getD "", region.getD "", name]

/-- The identity of a target. -/
def aliasName : Target → String
  | .s3 region _ bucket path => "s3://" ++ region.getD "" ++ "/" ++ storeLocation bucket path
  | .athena schema table => "athena://" ++ schema ++ "/" ++ table
  | .databricks catalog schema table => "databricks://" ++ catalog ++ "/" ++ schema ++ "/" ++ table
  | .dynamo account region table =>
    "dynamo://" ++ account.getD "" ++ "/" ++ region.getD "" ++ "/" ++ table
  | .sns account region topic =>
    "sns://" ++ account.getD "" ++ "/" ++ region.getD "" ++ "/" ++ topic
  | .dummy name => "dummy://" ++ name
  | .foreign _ aliasName .. => aliasName

/-- The name in templates. -/
def renderedName : Target → String
  | .s3 _ protocol bucket path => protocol ++ "://" ++ storeLocation bucket path
  | .athena schema table => schema ++ "." ++ table
  | .databricks catalog schema table => catalog ++ "." ++ schema ++ "." ++ table
  | .dynamo account region table => scopedName account region table
  | .sns account region topic => scopedName account region topic
  | .dummy name => name
  | .foreign _ _ renderedName _ => renderedName

/-- The name of the outside dependency. -/
def externalName : Target → String
  | .s3 region _ bucket path =>
    joinExternal "s3" [region, some (hyphenated (storeLocation bucket path))]
  | .athena schema table => "athena-" ++ schema ++ "-" ++ table
  | .databricks catalog schema table => "databricks-" ++ catalog ++ "-" ++ schema ++ "-" ++ table
  | .dynamo account region table => joinExternal "dynamo" [account, region, some table]
  | .sns account region topic => joinExternal "sns" [account, region, some topic]
  | .dummy name => "dummy-" ++ name
  | .foreign _ _ _ externalName => externalName

end Target

end PipelineLineage
