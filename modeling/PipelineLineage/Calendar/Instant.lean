set_option autoImplicit false

/-!
# Dates and times of day

A calendar instant to the second, in the proleptic Gregorian calendar, without a time zone. The
second 60 is a leap second, allowed in any minute.
-/

namespace PipelineLineage

structure Instant where
  year : Int
  month : Nat
  day : Nat
  hour : Nat
  minute : Nat
  second : Nat
  deriving DecidableEq

namespace Instant

def isLeapYear (year : Int) : Bool :=
  year % 4 = 0 && (year % 100 ≠ 0 || year % 400 = 0)

/-- The number of days of a month; no month outside 1 to 12 has any. -/
def daysIn (year : Int) (month : Nat) : Nat :=
  match month with
  | 2 => if isLeapYear year then 29 else 28
  | 4 | 6 | 9 | 11 => 30
  | 1 | 3 | 5 | 7 | 8 | 10 | 12 => 31
  | _ => 0

def leastYear : Int := -262143

def greatestYear : Int := 262142

/-- The fields name a day of the calendar and a second of that day. -/
def Valid (i : Instant) : Prop :=
  (leastYear ≤ i.year ∧ i.year ≤ greatestYear) ∧ (1 ≤ i.day ∧ i.day ≤ daysIn i.year i.month) ∧
    i.hour ≤ 23 ∧ i.minute ≤ 59 ∧ i.second ≤ 60

instance (i : Instant) : Decidable i.Valid := by
  unfold Valid; infer_instance

end Instant

end PipelineLineage
