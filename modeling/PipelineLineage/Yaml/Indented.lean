import PipelineLineage.Text.Digits
import PipelineLineage.Yaml.Source

set_option autoImplicit false

/-!
# Scalars by indentation

A scalar whose lines are all those of one indentation, or deeper. Its first line says whether the
line breaks between its lines are kept or folded, and what becomes of those at its end.
-/

namespace PipelineLineage.Yaml

open Text

/-- What becomes of the line breaks at the end of a scalar. -/
inductive Chomping
  | strip
  /-- The first is kept. -/
  | clip
  | keep
  deriving DecidableEq

/-- The first line of a scalar: whether its lines are folded, what becomes of its end, and how much
deeper than its surroundings it stands where that is said. -/
structure Header where
  folded : Bool
  chomping : Chomping
  depth : Option Nat

def chomping? : Char → Option Chomping
  | '-' => some .strip
  | '+' => some .keep
  | _ => none

/-- A mark for the end of a scalar. -/
def readChomping : List Spot → Chomping × List Spot
  | [] => (.clip, [])
  | s :: rest =>
    match chomping? s.char with
    | some chomping => (chomping, rest)
    | none => (.clip, s :: rest)

/-- A digit for the depth, which is not zero. -/
def readDepth? : List Spot → Option (Option Nat × List Spot)
  | [] => some (none, [])
  | s :: rest =>
    if s.char = '0' then none
    else if s.char.isDigit then some (some (digitValue s.char), rest)
    else some (none, s :: rest)

/-- What follows the line break at the end of a line that holds no more than a comment. -/
def restOfLine? (spots : List Spot) : Option (List Spot) :=
  let spots := spots.dropWhile Spot.isBlank
  let spots := match spots with
    | ⟨'#', _, _, _⟩ :: rest => rest.dropWhile fun (s : Spot) => !s.isBreak
    | spots => spots
  match spots with
  | [] => some []
  | s :: rest => if s.isBreak then some rest else none

/-- The first line of a scalar after its mark. -/
def header? (folded : Bool) (spots : List Spot) : Option (Header × List Spot) :=
  match readChomping spots with
  | (.clip, _) =>
    match readDepth? spots with
    | none => none
    | some (depth, rest) =>
      let (chomping, rest) := if depth.isSome then readChomping rest else (.clip, rest)
      (restOfLine? rest).map fun rest => (⟨folded, chomping, depth⟩, rest)
  | (chomping, rest) =>
    match readDepth? rest with
    | none => none
    | some (depth, rest) => (restOfLine? rest).map fun rest => (⟨folded, chomping, depth⟩, rest)

/-- The number of spaces at the start of a line. -/
def leadingSpaces (line : List Spot) : Nat := (line.takeWhile fun s => s.char = ' ').length

/-- The indentation that the first lines show: that of the first line that is not empty, and no less
than that of the empty lines before it. No tab may follow it. -/
def shownIndent (least : Nat) : List (List Spot) → Option Nat
  | [] => some least
  | line :: others =>
    let indent := leadingSpaces line
    match line.drop indent with
    | [] => some (max least indent)
    | s :: _ =>
      if s.char = '\t' then none
      else if s.isBreak then shownIndent (max least indent) others
      else some (max least indent)

/-- The lines of a scalar read so far. -/
structure Gathered where
  /-- The line break after the latest line. -/
  lastBreak : Option Char := none
  /-- Those of the empty lines after it. -/
  breaks : List Char := []
  /-- Whether the latest line starts with a blank. -/
  blank : Bool := false

/-- What stands between the lines so far and one that comes next. -/
def Gathered.joint (g : Gathered) (folded blank : Bool) : List Char :=
  if folded && g.lastBreak = some '\n' && !g.blank && !blank then
    if g.breaks.isEmpty then [' '] else g.breaks
  else g.lastBreak.toList ++ g.breaks

/-- What stands at the end of the lines. -/
def Gathered.ending (g : Gathered) : Chomping → List Char
  | .strip => []
  | .clip => g.lastBreak.toList
  | .keep => g.lastBreak.toList ++ g.breaks

/-- The text of the lines of an indentation, and what follows them. -/
def gather (folded : Bool) (chomping : Chomping) (indent : Nat) (g : Gathered) :
    List (List Spot) → Option (List Char × List Spot)
  | [] => some (g.ending chomping, [])
  | line :: others =>
    let spaces := min indent (leadingSpaces line)
    match line.drop spaces with
    | [] => some (g.ending chomping, others.flatten)
    | s :: rest =>
      if spaces < indent && s.char = '\t' then none
      else if s.isBreak then
        gather folded chomping indent { g with breaks := g.breaks ++ [s.char] } others
      else if spaces = indent then
        let (ends, text) := (s :: rest).partition Spot.isBreak
        (gather folded chomping indent ⟨ends.head?.map Spot.char, [], s.isBlank⟩ others).map
          fun (more, after) => (g.joint folded s.isBlank ++ text.map Spot.char ++ more, after)
      else some (g.ending chomping, s :: rest ++ others.flatten)

/-- The text of a scalar after its mark, and what follows it. The floor is the least column of what
stands inside the surroundings. -/
def indented (floor : Nat) (folded : Bool) (spots : List Spot) :
    Option (List Char × List Spot) :=
  match header? folded spots with
  | none => none
  | some (header, rest) =>
    let lines := linesOf rest
    let indent := match header.depth with
      | some depth => some (floor - 1 + depth)
      | none => shownIndent (max floor 1) lines
    match indent with
    | none => none
    | some indent => gather folded header.chomping indent {} lines

end PipelineLineage.Yaml
