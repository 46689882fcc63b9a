import PipelineLineage.Decimal.Binary64
import PipelineLineage.Text.Digits
import PipelineLineage.Value.Basic

set_option autoImplicit false

/-!
# Values of YAML scalars

A plain scalar is null, a boolean or a number when it is written as one, and otherwise a string; any
other scalar is a string. A tag of the format may ask for one of these.
-/

namespace PipelineLineage.Yaml

open Text

def nullWords : List String := ["~", "null", "Null", "NULL"]

def trueWords : List String := ["true", "True", "TRUE"]

def falseWords : List String := ["false", "False", "FALSE"]

/-- The words for infinity, which a sign may precede. -/
def infinityWords : List String := [".inf", ".Inf", ".INF"]

/-- The words for what is not a number. -/
def notNumberWords : List String := [".nan", ".NaN", ".NAN"]

def signed (cs : List Char) : Bool × List Char :=
  match cs with
  | '-' :: rest => (true, rest)
  | '+' :: rest => (false, rest)
  | rest => (false, rest)

/-- An integer in a base that its first characters name, or in base ten without zeros in front. -/
def integer? (cs : List Char) : Option Int :=
  let (negative, digits) := signed cs
  let magnitude := match digits with
    | [] => none
    | '0' :: 'x' :: rest => if rest.isEmpty then none else numeralValue? 16 rest
    | '0' :: 'o' :: rest => if rest.isEmpty then none else numeralValue? 8 rest
    | '0' :: 'b' :: rest => if rest.isEmpty then none else numeralValue? 2 rest
    | '0' :: _ :: _ => none
    | rest => numeralValue? 10 rest
  magnitude.map fun n => if negative then -(n : Int) else n

/-- Whether an integer fits a signed or an unsigned word of the given width. -/
def isWord (width : Nat) (n : Int) : Bool := fitsSigned width n || fitsUnsigned width n

/-- A decimal with a point or an exponent, as a finite double. -/
def float? (cs : List Char) : Option UInt64 :=
  let (negative, rest) := signed cs
  let (mantissa, exponent) := match rest.splitOnP fun c => c = 'e' || c = 'E' with
    | [mantissa] => (mantissa, some 0)
    | [mantissa, power] =>
      let (down, digits) := signed power
      (mantissa, if digits.isEmpty || !digits.all Char.isDigit then none
        else some (if down then -(decimalValue digits : Int) else (decimalValue digits : Int)))
    | _ => ([], none)
  let parts := match mantissa.splitOn '.' with
    | [whole] => some (whole, [])
    | [whole, fraction] => some (whole, fraction)
    | _ => none
  match parts, exponent with
  | some (whole, fraction), some exponent =>
    let digits := whole ++ fraction
    if digits.isEmpty || !digits.all Char.isDigit then none
    else
      (Binary64.ofDecimal (decimalValue digits) (exponent - fraction.length)).map
        (Binary64.withSign negative)
  | _, _ => none

/-- Digits with a needless zero in front are a string. -/
def isZeroPadded (cs : List Char) : Bool :=
  match (signed cs).2 with
  | '0' :: c :: rest => (c :: rest).all Char.isDigit
  | _ => false

def boolValue? (cs : List Char) : Option Value :=
  let word := String.ofList cs
  if trueWords.contains word then some (.bool true)
  else if falseWords.contains word then some (.bool false)
  else none

def nullValue? (cs : List Char) : Option Value :=
  if nullWords.contains (String.ofList cs) then some .null else none

/-- The float that a word writes; those that are not finite are null. -/
def floatValue? (cs : List Char) : Option Value :=
  if infinityWords.contains (String.ofList (signed cs).2) ||
      notNumberWords.contains (String.ofList cs) then some .null
  else (float? cs).map fun bits => .number (.float bits)

/-- The value of a plain scalar. An integer beyond 64 bits is refused when 128 bits hold it, and
reads as a float when they do not. -/
def plainValue? (cs : List Char) : Option Value :=
  let text := Value.string (String.ofList cs)
  let number := (floatValue? cs).getD text
  if cs.isEmpty then some .null
  else
    match (nullValue? cs).or (boolValue? cs) with
    | some value => some value
    | none =>
      if isZeroPadded cs then some text
      else
        match integer? cs with
        | some n =>
          if isWord 64 n then some (.int n) else if isWord 128 n then none else some number
        | none => some number

/-- The integer of 64 bits that a word writes. -/
def intValue? (cs : List Char) : Option Value :=
  if isZeroPadded cs then none
  else ((integer? cs).filter fun n => isWord 64 n).map .int

/-- The value of a scalar that has a tag of the format, by the name of the tag. -/
def taggedValue? (name : String) (cs : List Char) : Option Value :=
  match name with
  | "bool" => boolValue? cs
  | "int" => intValue? cs
  | "float" => floatValue? cs
  | "null" => nullValue? cs
  | _ => some (.string (String.ofList cs))

end PipelineLineage.Yaml
