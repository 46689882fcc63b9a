import PipelineLineage.Decimal.Binary64

set_option autoImplicit false

/-!
# The fewest digits that read back

Of all decimals that round to a given double, the one with the fewest digits, and of those the
nearest to the double. It is found in exact arithmetic: for one digit, two digits and so on the
two neighbours of the double on that decimal grid are tried against the interval of reals that
round to it. Its digits are laid out positionally or with an exponent.
-/

namespace PipelineLineage.Decimal

open Binary64

/-- The decimal `digits * 10 ^ exponent`. -/
structure Scaled where
  digits : Nat
  exponent : Int
  deriving DecidableEq

/-- The decimal with no zero at the end of its digits; the fuel is the number of digits. -/
def Scaled.strip : Nat → Scaled → Scaled
  | 0, x => x
  | fuel + 1, x =>
    if x.digits % 10 = 0 then Scaled.strip fuel ⟨x.digits / 10, x.exponent + 1⟩ else x

/-- The decimal as a quotient of natural numbers. -/
def Scaled.ratio (x : Scaled) : Nat × Nat :=
  if 0 ≤ x.exponent then (x.digits * powTen x.exponent.toNat, 1)
  else (x.digits, powTen (-x.exponent).toNat)

/-- The reals that round to a double: its value and the two ends of the interval, all over one
denominator, and whether the ends belong to it. -/
structure Interval where
  low : Nat
  value : Nat
  high : Nat
  den : Nat
  closed : Bool

/-- The ends lie halfway to the neighbours, so below a power of two the lower half is shorter. They
round to the double exactly when its mantissa is even. -/
def Interval.ofBits (bits : Nat) : Interval :=
  let x := decode bits
  let scale := powTwo x.exponent
  let below := if x.mantissa = powTwo 52 && x.exponent != 0 then 1 else 2
  { low := (4 * x.mantissa - below) * scale
    value := 4 * x.mantissa * scale
    high := (4 * x.mantissa + 2) * scale
    den := powTwo 1076
    closed := x.mantissa % 2 = 0 }

def Interval.holds (i : Interval) (x : Scaled) : Bool :=
  let r := x.ratio
  let point := r.1 * i.den
  let low := i.low * r.2
  let high := i.high * r.2
  if i.closed then low ≤ point && point ≤ high else low < point && point < high

/-- The least power of ten above the value is `10 ^ place`. -/
def Interval.place (i : Interval) : Int :=
  let digitCount := fun (n : Nat) => (Nat.toDigits 10 n).length
  if i.den ≤ i.value then digitCount (i.value / i.den)
  else 1 - (digitCount ((i.den - 1) / i.value) : Int)

/-- The neighbours of the value on the grid of multiples of `10 ^ exponent`: the one not above it,
the one above it, and whether the first is at least as near (the even one on a tie). -/
def Interval.neighbours (i : Interval) (exponent : Int) : Scaled × Scaled × Bool :=
  let num := if 0 ≤ exponent then i.value else i.value * powTen (-exponent).toNat
  let den := if 0 ≤ exponent then i.den * powTen exponent.toNat else i.den
  let floor := num / den
  let rest := num % den
  (⟨floor, exponent⟩, ⟨floor + 1, exponent⟩,
    2 * rest < den || (2 * rest = den && floor % 2 = 0))

/-- The nearest decimal in the interval on the coarsest grid that has one; the fuel counts grids. -/
def Interval.search (i : Interval) : Nat → Int → Scaled
  | 0, exponent => (i.neighbours exponent).1
  | fuel + 1, exponent =>
    let (below, above, belowFirst) := i.neighbours exponent
    match i.holds below, i.holds above with
    | true, true => if belowFirst then below else above
    | true, false => below
    | false, true => above
    | false, false => i.search fuel (exponent - 1)

/-- The shortest decimal that rounds to the double with these bits, which are not zero. Seventeen
digits are always enough. -/
def shortest (bits : Nat) : Scaled :=
  let i := Interval.ofBits bits
  (i.search 17 (i.place - 1)).strip 20

/-- The digits with a point among them, and zeros where the point lies outside them. -/
def positional (x : Scaled) : List Char :=
  let digits := Nat.toDigits 10 x.digits
  if 0 ≤ x.exponent then digits ++ List.replicate x.exponent.toNat '0' ++ ['.', '0']
  else
    let fraction := (-x.exponent).toNat
    if fraction < digits.length then
      digits.take (digits.length - fraction) ++ '.' :: digits.drop (digits.length - fraction)
    else '0' :: '.' :: List.replicate (fraction - digits.length) '0' ++ digits

/-- One digit before the point, the others after it, and a signed exponent of ten. -/
def scientific (x : Scaled) : List Char :=
  let digits := Nat.toDigits 10 x.digits
  let exponent : Int := digits.length + x.exponent - 1
  let mantissa := match digits with
    | first :: [] => [first]
    | first :: others => first :: '.' :: others
    | [] => []
  mantissa ++ 'e' :: (if exponent < 0 then '-' else '+') :: Nat.toDigits 10 exponent.natAbs

/-- How the place of the first digit decides the layout: from `10 ^ least` up to and excluding
`10 ^ most`, a number is written positionally. -/
structure Layout where
  least : Int
  most : Int

/-- The text of a finite double. Zero keeps its sign. -/
def Layout.render (layout : Layout) (bits : UInt64) : List Char :=
  let sign := if isNegative bits then ['-'] else []
  if magnitude bits = 0 then sign ++ ['0', '.', '0']
  else
    let x := shortest (magnitude bits)
    let place : Int := (Nat.toDigits 10 x.digits).length + x.exponent
    if layout.least < place && place ≤ layout.most then sign ++ positional x
    else sign ++ scientific x

end PipelineLineage.Decimal
