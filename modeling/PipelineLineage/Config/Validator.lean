import PipelineLineage.Calendar.Format
import PipelineLineage.Value.Number

set_option autoImplicit false

/-!
# Stock validators

A validator takes a present value and returns it in normal form, or says in a few words why it is
refused. Scalars become strings, strings become integers, booleans and instants where they write
one, and the blanks of a schedule are made regular.
-/

namespace PipelineLineage

abbrev Validator := Value → Except String Value

namespace Validator

def expected (what : String) (found : Value) : String :=
  s!"expected {what}, found " ++ found.kindName

def string : Validator
  | .string s => .ok (.string s)
  | .number n => .ok (.string (String.ofList n.render))
  | .bool b => .ok (.string (if b then "true" else "false"))
  | other => .error (expected "a string" other)

/-- The integer that an optional sign and at least one digit write. -/
def readInteger (cs : List Char) : Option Int :=
  let (negative, digits) := match cs with
    | '-' :: rest => (true, rest)
    | '+' :: rest => (false, rest)
    | rest => (false, rest)
  if digits.isEmpty || !digits.all Char.isDigit then none
  else
    let n : Int := Text.decimalValue digits
    some (if negative then -n else n)

/-- An integer as a signed 64-bit word, or a string that writes one among blanks. -/
def integer : Validator
  | .number n =>
    match n.int64? with
    | some value => .ok (.int value)
    | none => .error ("expected an integer, found " ++ String.ofList n.render)
  | .string s =>
    match (readInteger (Text.trim s.toList)).bind fun value => (Number.int value).int64? with
    | some value => .ok (.int value)
    | none => .error s!"expected an integer, found '{s}'"
  | other => .error (expected "an integer" other)

/-- A letter of the alphabet `A` to `Z` in lower case. -/
def lowerLetter (c : Char) : Char :=
  if 'A' ≤ c ∧ c ≤ 'Z' then Char.ofNat (c.toNat + 32) else c

/-- A boolean, or the word for one in any mixture of cases. -/
def boolean : Validator
  | .bool b => .ok (.bool b)
  | .string s =>
    let word := s.toList.map lowerLetter
    if word = "true".toList then .ok (.bool true)
    else if word = "false".toList then .ok (.bool false)
    else .error (expected "a boolean" (.string s))
  | other => .error (expected "a boolean" other)

def object : Validator
  | .map fields => .ok (.map fields)
  | other => .error (expected "a map" other)

def list : Validator
  | .list items => .ok (.list items)
  | other => .error (expected "a list" other)

/-- The instant of a text to the minute, or to the second. -/
def readTimestamp (s : String) : Option Instant :=
  (Calendar.read? Calendar.minuteFormat s.toList).orElse fun _ =>
    Calendar.read? Calendar.secondFormat s.toList

def renderTimestamp (i : Instant) : String :=
  String.ofList (Calendar.render Calendar.secondFormat i)

/-- The instant of a normalised text. -/
def parseTimestamp (s : String) : Option Instant :=
  Calendar.read? Calendar.secondFormat s.toList

def timestamp : Validator
  | .string s =>
    match readTimestamp s with
    | some i => .ok (.string (renderTimestamp i))
    | none => .error s!"expected a timestamp like 2019-11-01T03:00, found '{s}'"
  | other => .error (expected "a timestamp string" other)

def presets : List String :=
  ["@yearly", "@annually", "@monthly", "@weekly", "@daily", "@hourly", "@once"]

def isScheduleChar (c : Char) : Bool :=
  c.isDigit || c.isAlpha || "*/,-?#".toList.contains c

/-- Five words of schedule characters. -/
def isSchedule (words : List (List Char)) : Bool :=
  words.length = 5 && words.all fun word => word.all isScheduleChar

/-- A named schedule, or five fields, which are joined by single spaces. -/
def cron : Validator
  | .string s =>
    let trimmed := Text.trim s.toList
    let words := Text.words trimmed
    if presets.contains (String.ofList trimmed) then .ok (.string (String.ofList trimmed))
    else if isSchedule words then .ok (.string (String.ofList ([' '].intercalate words)))
    else .error s!"expected a crontab like '0 3 * * *', found '{s}'"
  | other => .error (expected "a cron expression" other)

def stock : List (String × Validator) :=
  [("string", string), ("integer", integer), ("boolean", boolean), ("object", object),
    ("list", list), ("timestamp", timestamp), ("cron", cron)]

end Validator

end PipelineLineage
