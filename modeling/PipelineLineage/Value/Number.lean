import PipelineLineage.Value.Basic
import PipelineLineage.Decimal.Shortest

set_option autoImplicit false

/-!
# The text of numbers

Integers are written plainly. Floats are written with the fewest digits that read back, positionally
from `1e-5` up to `1e16` and with an exponent elsewhere. Reading a number token is the inverse:
without point and exponent it is an integer when it fits a signed or an unsigned 64-bit word, and
otherwise a float.
-/

namespace PipelineLineage.Number

/-- Floats are positional from `10 ^ -5` up to and excluding `10 ^ 16`. -/
def layout : Decimal.Layout := ⟨-5, 16⟩

def renderInt (n : Int) : List Char :=
  if n < 0 then '-' :: Nat.toDigits 10 n.natAbs else Nat.toDigits 10 n.natAbs

def render : Number → List Char
  | .int n => renderInt n
  | .float bits => layout.render bits

/-- The number as a signed 64-bit word. -/
def int64? : Number → Option Int
  | .int n => if fitsSigned 64 n then some n else none
  | .float _ => none

/-- The parts of a number token. The fraction and the exponent may be absent. -/
structure Token where
  negative : Bool
  whole : List Nat
  fraction : Option (List Nat)
  exponent : Option (Bool × List Nat)

/-- The largest significand that is gathered. -/
def significandLimit : Nat := powTwo 64 - 1

/-- Appends digits to a significand while it stays within the limit, and returns the digits that
are left over. -/
def gather (significand : Nat) : List Nat → Nat × List Nat
  | [] => (significand, [])
  | d :: rest =>
    if significandLimit < significand * 10 + d then (significand, d :: rest)
    else gather (significand * 10 + d) rest

/-- The exponent of the largest power of ten that is a finite double. -/
def stepLimit : Nat := 308

/-- The magnitude of the double nearest to a power of ten. -/
def powerOfTen (power : Nat) : Option Nat :=
  Binary64.nearest (powTen power) 1

/-- A magnitude divided by the largest power of ten, as often as the first argument says. -/
def divideSteps : Nat → Nat → Option Nat
  | 0, magnitude => some magnitude
  | steps + 1, magnitude =>
    if magnitude = 0 then some 0
    else (powerOfTen stepLimit).bind fun step =>
      (Binary64.div magnitude step).bind (divideSteps steps)

/-- A magnitude divided by a power of ten, in steps within the limit. -/
def shiftDown (magnitude : Nat) (power : Nat) : Option Nat :=
  let steps := (power - 1) / stepLimit
  (divideSteps steps magnitude).bind fun lower =>
    (powerOfTen (power - stepLimit * steps)).bind (Binary64.div lower)

/-- A magnitude multiplied by a power of ten, or nothing when it exceeds the finite doubles. -/
def shiftUp (magnitude : Nat) (power : Nat) : Option Nat :=
  if power ≤ stepLimit then (powerOfTen power).bind (Binary64.mul magnitude)
  else if magnitude = 0 then some 0
  else none

/-- The double for `significand * 10 ^ exponent`: the significand is rounded first, then the
product or the quotient with the rounded power of ten. -/
def scale (significand : Nat) (exponent : Int) : Option Nat :=
  (Binary64.nearest significand 1).bind fun magnitude =>
    if 0 ≤ exponent then shiftUp magnitude exponent.toNat
    else shiftDown magnitude (-exponent).toNat

/-- The largest exponent that is gathered. -/
def exponentLimit : Nat := powTwo 31 - 1

def gatherExponent (gathered : Nat) : List Nat → Option Nat
  | [] => some gathered
  | d :: rest =>
    if exponentLimit < gathered * 10 + d then none else gatherExponent (gathered * 10 + d) rest

/-- The magnitude of a token that is not a plain integer. Digits of the whole part beyond the limit
count as powers of ten, those of the fraction are dropped; an exponent beyond its limit gives zero
or leaves the finite doubles. -/
def Token.magnitude (t : Token) : Option Nat :=
  let (significand, dropped) := gather 0 t.whole
  let fraction := t.fraction.getD []
  let (significand', unread) := gather significand fraction
  let start : Int := dropped.length - (fraction.length - unread.length)
  match t.exponent with
  | none => scale significand' start
  | some (down, digits) =>
    match gatherExponent 0 digits with
    | some power => scale significand' (if down then start - power else start + power)
    | none => if down || significand' = 0 then some 0 else none

/-- The number of a token, or nothing when it exceeds the finite doubles. -/
def Token.number? (t : Token) : Option Number :=
  let (significand, dropped) := gather 0 t.whole
  let float := t.magnitude.map fun magnitude => .float (Binary64.withSign t.negative magnitude)
  match t.fraction, t.exponent, dropped with
  | none, none, [] =>
    if !t.negative then some (.int significand)
    else if significand ≠ 0 ∧ significand ≤ powTwo 63 then some (.int (-significand))
    else float
  | _, _, _ => float

end PipelineLineage.Number
