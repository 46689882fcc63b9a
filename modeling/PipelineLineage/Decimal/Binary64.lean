import PipelineLineage.Decimal.Power

set_option autoImplicit false

/-!
# Binary floating point on bits

A nonnegative double is held as its bits, a natural number. Decoding gives the mantissa and the
exponent of two; encoding rounds a quotient of natural numbers to the nearest double, a tie going
to the even mantissa. Products and quotients are the exact rational results, rounded once.
-/

namespace PipelineLineage.Binary64

/-- The bits of positive infinity; every smaller number encodes a finite magnitude. -/
def infinity : Nat := 0x7FF <<< 52

/-- The magnitude `mantissa * 2 ^ (exponent - 1074)`. -/
structure Dyadic where
  mantissa : Nat
  exponent : Nat

/-- The magnitude that finite bits stand for. -/
def decode (bits : Nat) : Dyadic :=
  let field := bits >>> 52
  let fraction := bits % powTwo 52
  if field = 0 then ⟨fraction, 0⟩ else ⟨powTwo 52 + fraction, field - 1⟩

/-- The quotient rounded to a natural number, a tie going to the even one. -/
def roundQuotient (num den : Nat) : Nat :=
  let floor := num / den
  let rest := num % den
  if 2 * rest < den then floor
  else if 2 * rest > den then floor + 1
  else floor + floor % 2

/-- The bits of the double nearest to `num / den`, or nothing when it is beyond the finite ones.

The quotient is scaled by `2 ^ (exponent - 1074)` so that the rounded mantissa has 53 bits, or fewer
at the least exponent. A mantissa that rounds up to `2 ^ 53` carries into the exponent by itself. -/
def nearest (num den : Nat) : Option Nat :=
  if num = 0 then some 0
  else
    let estimate : Nat := num.log2 + 1074 - (den.log2 + 53)
    let scaled := fun (exponent : Nat) => (num * powTwo 1074, den * powTwo exponent)
    let exponent :=
      if (scaled estimate).1 / (scaled estimate).2 < powTwo 53 then estimate else estimate + 1
    let mantissa := roundQuotient (scaled exponent).1 (scaled exponent).2
    let bits := exponent * powTwo 52 + mantissa
    if bits < infinity then some bits else none

def mul (a b : Nat) : Option Nat :=
  let x := decode a
  let y := decode b
  nearest (x.mantissa * y.mantissa * powTwo (x.exponent + y.exponent)) (powTwo (2 * 1074))

/-- The quotient of two magnitudes, the second one not zero. -/
def div (a b : Nat) : Option Nat :=
  let x := decode a
  let y := decode b
  nearest (x.mantissa * powTwo x.exponent) (y.mantissa * powTwo y.exponent)

/-- The double nearest to `digits * 10 ^ exponent`. Far beyond either end of the doubles the answer
is known without raising the power. -/
def ofDecimal (digits : Nat) (exponent : Int) : Option Nat :=
  let place : Int := (Nat.toDigits 10 digits).length + exponent
  if digits = 0 then some 0
  else if 400 < place then none
  else if place < -400 then some 0
  else if 0 ≤ exponent then nearest (digits * powTen exponent.toNat) 1
  else nearest digits (powTen (-exponent).toNat)

def withSign (negative : Bool) (bits : Nat) : UInt64 :=
  (if negative then bits + powTwo 63 else bits).toUInt64

def isNegative (bits : UInt64) : Bool :=
  powTwo 63 ≤ bits.toNat

def magnitude (bits : UInt64) : Nat :=
  bits.toNat % powTwo 63

end PipelineLineage.Binary64
