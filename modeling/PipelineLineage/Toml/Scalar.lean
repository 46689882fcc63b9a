import PipelineLineage.Calendar.Instant
import PipelineLineage.Decimal.Binary64
import PipelineLineage.Document
import PipelineLineage.Text.Digits

set_option autoImplicit false

/-!
# Scalars of TOML

Booleans, numbers and dates, read from the whole of their token. Digits may be grouped by single
underscores. Integers fit a signed 64-bit word, and a float is the nearest double to what its token
writes. Dates keep a normalised text, under a name that no table of a document uses.
-/

namespace PipelineLineage.Toml

open Text

/-- The name under which the text of a date stands. -/
def datetimeKey : String := "$__toml_private_datetime"

/-- The characters of grouped digits without their underscores. -/
def grouped? (isDigit : Char → Bool) (cs : List Char) : Option (List Char) :=
  let groups := cs.splitOn '_'
  if groups.all fun group => !group.isEmpty && group.all isDigit then some groups.flatten else none

/-- The sign of a number token, and the rest of it. -/
def signed (cs : List Char) : Bool × List Char :=
  match cs with
  | '-' :: rest => (true, rest)
  | '+' :: rest => (false, rest)
  | rest => (false, rest)

def word64? (n : Int) : Option Int :=
  if fitsSigned 64 n then some n else none

/-- Digits that do not start with a zero unless they are it. -/
def wholeDigits? (cs : List Char) : Option (List Char) :=
  match grouped? Char.isDigit cs with
  | some ('0' :: _ :: _) => none
  | digits => digits

def integer? (cs : List Char) : Option Int :=
  let radix := fun (base : Nat) (rest : List Char) =>
    ((grouped? (fun c => (hexValue? c).isSome) rest).bind (numeralValue? base)).bind
      fun n => word64? n
  match cs with
  | '0' :: 'x' :: rest => radix 16 rest
  | '0' :: 'o' :: rest => radix 8 rest
  | '0' :: 'b' :: rest => radix 2 rest
  | cs =>
    let (negative, rest) := signed cs
    (wholeDigits? rest).bind fun digits =>
      let n : Int := decimalValue digits
      word64? (if negative then -n else n)

/-- The exponent of a float token, zero when there is none. -/
def exponent? : List (List Char) → Option Int
  | [] => some 0
  | [part] =>
    let (negative, rest) := signed part
    (grouped? Char.isDigit rest).map fun digits =>
      let n : Int := decimalValue digits
      if negative then -n else n
  | _ => none

/-- What a token with a fraction or an exponent stands for. A number too large for a double is
refused; under a minus sign it is negative infinity. -/
def float? (cs : List Char) : Option Document :=
  let (negative, rest) := signed cs
  match rest.splitOnP fun c => c = 'e' || c = 'E' with
  | [] => none
  | mantissa :: exponents =>
    let digits := match mantissa.splitOn '.' with
      | [whole] => if exponents.isEmpty then none else (wholeDigits? whole).map fun w => (w, [])
      | [whole, fraction] =>
        match wholeDigits? whole, grouped? Char.isDigit fraction with
        | some w, some f => some (w, f)
        | _, _ => none
      | _ => none
    match digits, exponent? exponents with
    | some (whole, fraction), some exponent =>
      match Binary64.ofDecimal (decimalValue (whole ++ fraction)) (exponent - fraction.length) with
      | some bits => some (.number (.float (Binary64.withSign negative bits)))
      | none => if negative then some .nonfinite else none
    | _, _ => none

/-- A number of exactly the given count of digits, at most the given limit. -/
def field? (count limit : Nat) (cs : List Char) : Option Nat :=
  if cs.length = count && cs.all Char.isDigit && decimalValue cs ≤ limit then
    some (decimalValue cs)
  else none

/-- The text of a day of the calendar. -/
def date? (cs : List Char) : Option (List Char) :=
  match cs.splitOn '-' with
  | [year, month, day] =>
    match field? 4 9999 year, field? 2 12 month, field? 2 31 day with
    | some y, some m, some d =>
      if 1 ≤ d && d ≤ Instant.daysIn y m then some cs else none
    | _, _, _ => none
  | _ => none

/-- Digits of a second's fraction: at most nine, without zeros at the end, after a point. -/
def fraction (digits : List Char) : List Char :=
  let kept := ((digits.take 9).reverse.dropWhile (· == '0')).reverse
  if kept.isEmpty then [] else '.' :: kept

def time? (cs : List Char) : Option (List Char) :=
  let clock := cs.takeWhile (· != '.')
  let valid := match clock.splitOn ':' with
    | [hour, minute, second] =>
      (field? 2 23 hour).isSome && (field? 2 59 minute).isSome && (field? 2 60 second).isSome
    | _ => false
  match valid, cs.drop clock.length with
  | true, [] => some clock
  | true, _ :: digits =>
    if !digits.isEmpty && digits.all Char.isDigit then some (clock ++ fraction digits) else none
  | false, _ => none

/-- The text of an offset in hours and minutes after its sign. -/
def offset? (negative : Bool) (cs : List Char) : Option (List Char) :=
  match cs.splitOn ':' with
  | [hour, minute] =>
    match field? 2 23 hour, field? 2 59 minute with
    | some h, some m => some ((if negative && h + m ≠ 0 then '-' else '+') :: cs)
    | _, _ => none
  | _ => none

/-- The text of a time of day with an offset, or without one. -/
def zonedTime? (cs : List Char) : Option (List Char) :=
  let clock := cs.takeWhile fun c => c.isDigit || c = ':' || c = '.'
  let zone := match cs.drop clock.length with
    | [] => some []
    | ['Z'] => some ['Z']
    | ['z'] => some ['Z']
    | '+' :: rest => offset? false rest
    | '-' :: rest => offset? true rest
    | _ => none
  match time? clock, zone with
  | some t, some z => some (t ++ z)
  | _, _ => none

/-- Whether a token is a day that a time may follow after a blank. -/
def isDate (cs : List Char) : Bool := (date? cs).isSome

/-- The text of a date, of a time, or of both; the mark between them is a letter or a blank. -/
def datetime? (cs : List Char) : Option (List Char) :=
  match cs.drop 10 with
  | [] => date? cs
  | mark :: rest =>
    if mark = 'T' || mark = 't' || mark = ' ' then
      match date? (cs.take 10), zonedTime? rest with
      | some d, some t => some (d ++ 'T' :: t)
      | _, _ => none
    else none

/-- The document of a scalar token. -/
def scalar? (cs : List Char) : Option Document :=
  let special := (signed cs).2
  if cs = "true".toList then some (.bool true)
  else if cs = "false".toList then some (.bool false)
  else if special = "inf".toList || special = "nan".toList then some .nonfinite
  else
    match integer? cs, float? cs, (datetime? cs).or (time? cs) with
    | some n, _, _ => some (.number (.int n))
    | _, some document, _ => some document
    | _, _, some text => some (.table [(datetimeKey, .string (String.ofList text))])
    | _, _, _ => none

end PipelineLineage.Toml
