import PipelineLineage.Text.Digits
import PipelineLineage.Yaml.Source

set_option autoImplicit false

/-!
# Tags and directives

A tag names the type of a node. It is written whole or as a handle and a suffix; directives before
a document say which version of the format it is written in and what its handles stand for.
-/

namespace PipelineLineage.Yaml

open Text

/-- Whether a name may hold a character. -/
def isNameChar (c : Char) : Bool := c.isAlphanum || c = '_' || c = '-'

/-- A tag as it is written: the handle, which is empty where the suffix is the whole, and the
suffix. -/
structure TagText where
  handle : List Char
  suffix : List Char
  deriving DecidableEq

inductive Directive
  | version (major minor : Nat)
  | handle (name : List Char) (start : List Char)
  deriving DecidableEq

/-- The longest start of spots whose characters have a property, and what follows it. -/
def spanChars (p : Char → Bool) (spots : List Spot) : List Char × List Spot :=
  let (found, rest) := spots.span fun s => p s.char
  (found.map Spot.char, rest)

/-- The value of an escaped byte: a percent sign and two digits. -/
def byte? : List Char → Option Nat
  | ['%', a, b] => numeralValue? 16 [a, b]
  | _ => none

/-- How many bytes follow the first byte of a character, and the bits that it holds. -/
def leadingByte? (byte : Nat) : Option (Nat × Nat) :=
  if byte < 0x80 then some (0, byte)
  else if byte / 0x20 = 0x6 then some (1, byte % 0x20)
  else if byte / 0x10 = 0xe then some (2, byte % 0x10)
  else if byte / 0x8 = 0x1e then some (3, byte % 0x8)
  else none

/-- Text with escaped bytes; the state is the number of bytes that a character lacks, and its bits
so far. -/
def unescape (missing bits : Nat) : List Char → Option (List Char)
  | '%' :: a :: b :: rest =>
    match byte? ['%', a, b] with
    | none => none
    | some byte =>
      if missing = 0 then
        match leadingByte? byte with
        | none => none
        | some (0, bits) => (unescape 0 0 rest).map (Char.ofNat bits :: ·)
        | some (more, bits) => unescape more bits rest
      else if byte / 0x40 ≠ 0x2 then none
      else
        let bits := bits * 0x40 + byte % 0x40
        if missing = 1 then (unescape 0 0 rest).map (Char.ofNat bits :: ·)
        else unescape (missing - 1) bits rest
  | c :: rest =>
    if c = '%' || missing ≠ 0 then none else (unescape 0 0 rest).map (c :: ·)
  | [] => if missing = 0 then some [] else none

/-- The characters of a tag that are neither letters nor digits. -/
def tagMarks : List Char := ";/?:@&=+$.%!~*'()".toList

def isTagChar (c : Char) : Bool := isNameChar c || tagMarks.contains c

/-- Whether a tag that is written whole may hold a character. -/
def isWholeTagChar (c : Char) : Bool := isTagChar c || c = ',' || c = '[' || c = ']'

/-- The part of a tag that follows its handle; it may be empty only after a part that is not. -/
def tagPart? (p : Char → Bool) (before : List Char) (spots : List Spot) :
    Option (List Char × List Spot) :=
  let (text, rest) := spanChars p spots
  if before.isEmpty && text.isEmpty then none
  else (unescape 0 0 text).map fun text => (before.drop 1 ++ text, rest)

/-- A handle: an exclamation mark, a name and perhaps another mark. -/
def handle : List Spot → List Char × List Spot
  | ⟨'!', _, _, _⟩ :: rest =>
    match spanChars isNameChar rest with
    | (name, ⟨'!', _, _, _⟩ :: rest) => ('!' :: name ++ ['!'], rest)
    | (name, rest) => ('!' :: name, rest)
  | spots => ([], spots)

/-- The text of a tag, whose first character is an exclamation mark. -/
def tagText? : List Spot → Option (TagText × List Spot)
  | _ :: ⟨'<', _, _, _⟩ :: rest =>
    match tagPart? isWholeTagChar [] rest with
    | some (suffix, ⟨'>', _, _, _⟩ :: rest) => some (⟨[], suffix⟩, rest)
    | _ => none
  | spots =>
    let (start, rest) := handle spots
    if 1 < start.length && start.getLast? = some '!' then
      (tagPart? isTagChar [] rest).map fun (suffix, rest) => (⟨start, suffix⟩, rest)
    else
      (tagPart? isTagChar start rest).map fun (suffix, rest) =>
        (if suffix.isEmpty then ⟨[], ['!']⟩ else ⟨['!'], suffix⟩, rest)

/-- A tag, which ends a word or an entry of a collection in brackets. -/
def tag? (inFlow : Bool) (spots : List Spot) : Option (TagText × List Spot) :=
  (tagText? spots).filter fun (_, rest) =>
    endsWord rest || inFlow && (rest.head?.map Spot.char) = some ','

/-- A number of at most nine digits. -/
def versionNumber? (spots : List Spot) : Option (Nat × List Spot) :=
  let (digits, rest) := spanChars Char.isDigit spots
  if digits.isEmpty || 9 < digits.length then none else some (decimalValue digits, rest)

/-- A directive after its percent sign, up to what follows on its line. -/
def directive? (spots : List Spot) : Option (Directive × List Spot) :=
  let (name, rest) := spanChars isNameChar spots
  let value := rest.dropWhile Spot.isBlank
  if !endsWord rest then none
  else if name = "YAML".toList then do
    let (major, rest) ← versionNumber? value
    match rest with
    | ⟨'.', _, _, _⟩ :: rest =>
      let (minor, rest) ← versionNumber? rest
      return (.version major minor, rest)
    | _ => none
  else if name = "TAG".toList then do
    let (start, rest) := handle value
    if start.isEmpty || !(start = ['!'] || start.getLast? = some '!') || !endsWord rest then none
    else
      let (text, rest) ← tagPart? isWholeTagChar [] (rest.dropWhile Spot.isBlank)
      if endsWord rest then return (.handle start text, rest) else none
  else none

end PipelineLineage.Yaml
