set_option autoImplicit false

/-!
# Digits

The values of decimal and hexadecimal digits of the ASCII alphabet, and of the numerals they write.
-/

namespace PipelineLineage.Text

/-- The value of a decimal digit. -/
def digitValue (c : Char) : Nat :=
  c.toNat - '0'.toNat

/-- The number that decimal digits write. -/
def decimalValue (digits : List Char) : Nat :=
  digits.foldl (fun n d => n * 10 + digitValue d) 0

def hexValue? (c : Char) : Option Nat :=
  if c.isDigit then some (digitValue c)
  else if 'a' ≤ c ∧ c ≤ 'f' then some (c.toNat - 'a'.toNat + 10)
  else if 'A' ≤ c ∧ c ≤ 'F' then some (c.toNat - 'A'.toNat + 10)
  else none

/-- The number that digits write in a base of at most sixteen, if they are digits of that base. -/
def numeralValue? (base : Nat) (digits : List Char) : Option Nat :=
  digits.foldlM (fun n d =>
    (hexValue? d).bind fun value => if value < base then some (n * base + value) else none) 0

/-- The number that four hexadecimal digits write. -/
def hexUnit? (a b c d : Char) : Option Nat :=
  numeralValue? 16 [a, b, c, d]

end PipelineLineage.Text
