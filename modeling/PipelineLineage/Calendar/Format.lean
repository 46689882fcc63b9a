import PipelineLineage.Calendar.Instant
import PipelineLineage.Text.Blank
import PipelineLineage.Text.Digits

set_option autoImplicit false

/-!
# Instants in text

A format is a list of fields and literal characters. Reading follows it from left to right and must
use up the text: blanks may stand before a field, fields other than the year have one or two digits,
and a year has one to four digits, or any number of them after a sign. Writing pads fields with
zeros, to two digits or, for the year, to four; a year outside 0 to 9999 carries its sign.
-/

namespace PipelineLineage.Calendar

inductive Part
  | year
  | month
  | day
  | hour
  | minute
  | second
  | literal (c : Char)

/-- `YYYY-mm-ddTHH:MM`, as authors write it. -/
def minuteFormat : List Part :=
  [.year, .literal '-', .month, .literal '-', .day, .literal 'T', .hour, .literal ':', .minute]

/-- `YYYY-mm-ddTHH:MM:SS`, the normal form. -/
def secondFormat : List Part :=
  minuteFormat ++ [.literal ':', .second]

/-- A natural number of at least one digit and at most the given number of them. -/
def readNumber (width : Nat) (cs : List Char) : Option (Nat × List Char) :=
  let digits := (cs.take width).takeWhile Char.isDigit
  if digits.isEmpty then none else some (Text.decimalValue digits, cs.drop digits.length)

def readYear (cs : List Char) : Option (Int × List Char) :=
  match cs with
  | '-' :: rest => (readNumber rest.length rest).map fun (n, after) => (-(n : Int), after)
  | '+' :: rest => (readNumber rest.length rest).map fun (n, after) => ((n : Int), after)
  | cs => (readNumber 4 cs).map fun (n, after) => ((n : Int), after)

def readField (set : Instant → Nat → Instant) (i : Instant) (cs : List Char) :
    Option (Instant × List Char) :=
  (readNumber 2 (Text.skipBlanks cs)).map fun (n, rest) => (set i n, rest)

def Part.read (i : Instant) (cs : List Char) : Part → Option (Instant × List Char)
  | .year => (readYear (Text.skipBlanks cs)).map fun (n, rest) => (⟨n, i.month, i.day, i.hour,
      i.minute, i.second⟩, rest)
  | .month => readField (fun i n => { i with month := n }) i cs
  | .day => readField (fun i n => { i with day := n }) i cs
  | .hour => readField (fun i n => { i with hour := n }) i cs
  | .minute => readField (fun i n => { i with minute := n }) i cs
  | .second => readField (fun i n => { i with second := n }) i cs
  | .literal c =>
    match cs with
    | first :: rest => if first = c then some (i, rest) else none
    | [] => none

/-- Reads the parts in order and returns what they filled in and what is left. -/
def readParts (i : Instant) (cs : List Char) : List Part → Option (Instant × List Char)
  | [] => some (i, cs)
  | part :: parts =>
    match part.read i cs with
    | some (i, rest) => readParts i rest parts
    | none => none

/-- The valid instant that a whole text writes. A field that the format lacks is zero. -/
def read? (format : List Part) (cs : List Char) : Option Instant :=
  match readParts ⟨0, 0, 0, 0, 0, 0⟩ cs format with
  | some (i, []) => if i.Valid then some i else none
  | _ => none

/-- The digits of a number, with zeros in front up to the given width. -/
def padded (width n : Nat) : List Char :=
  let digits := Nat.toDigits 10 n
  List.replicate (width - digits.length) '0' ++ digits

def renderYear (year : Int) : List Char :=
  if year < 0 then '-' :: padded 4 year.natAbs
  else if 9999 < year then '+' :: padded 4 year.natAbs
  else padded 4 year.natAbs

def Part.render (i : Instant) : Part → List Char
  | .year => renderYear i.year
  | .month => padded 2 i.month
  | .day => padded 2 i.day
  | .hour => padded 2 i.hour
  | .minute => padded 2 i.minute
  | .second => padded 2 i.second
  | .literal c => [c]

def render (format : List Part) (i : Instant) : List Char :=
  format.flatMap (Part.render i)

end PipelineLineage.Calendar
