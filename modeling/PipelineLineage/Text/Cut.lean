set_option autoImplicit false

/-!
# Cutting text at a mark

Cuts of a list of characters at a separator: at its first occurrence, at the first `://`, and
at the ends. Splitting at every occurrence is `List.splitOn`.
-/

namespace PipelineLineage.Text

/-- What stands before and after the first occurrence of a character. -/
def splitFirst (mark : Char) : List Char → Option (List Char × List Char)
  | [] => none
  | c :: rest =>
    if c = mark then some ([], rest)
    else (splitFirst mark rest).map fun (before, after) => (c :: before, after)

/-- What stands after the first `://`, if there is one. -/
def afterScheme? : List Char → Option (List Char)
  | [] => none
  | ':' :: '/' :: '/' :: rest => some rest
  | _ :: rest => afterScheme? rest

/-- A location without its scheme; a location that has none is kept as it is. -/
def withoutScheme (cs : List Char) : List Char :=
  (afterScheme? cs).getD cs

def trimLeft (mark : Char) (cs : List Char) : List Char :=
  cs.dropWhile (· == mark)

def trimRight (mark : Char) (cs : List Char) : List Char :=
  (trimLeft mark cs.reverse).reverse

def trimBoth (mark : Char) (cs : List Char) : List Char :=
  trimRight mark (trimLeft mark cs)

/-- Whether one text occurs in another, at any place. -/
def occursIn (part : List Char) : List Char → Bool
  | [] => part.isEmpty
  | c :: rest => part.isPrefixOf (c :: rest) || occursIn part rest

end PipelineLineage.Text
