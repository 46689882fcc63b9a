import PipelineLineage.Document
import PipelineLineage.Text.Digits
import PipelineLineage.Value.Number

set_option autoImplicit false

/-!
# Reading JSON

A JSON text becomes a document. Text that is not JSON is refused as a whole. A number beyond the
finite doubles, a string with half of a surrogate pair, and a container nested deeper than the level
limit are JSON without a value: they become unreadable parts, which matter only to who keeps them.
-/

namespace PipelineLineage.Json

open Text (digitValue hexUnit?)

/-- How many containers may enclose one another where a value is kept. -/
def levelLimit : Nat := 127

def isSpace (c : Char) : Bool :=
  c = ' ' || c = '\t' || c = '\n' || c = '\r'

def skipSpaces (cs : List Char) : List Char :=
  cs.dropWhile isSpace

def simpleEscape? : Char → Option Char
  | '"' => some '"'
  | '\\' => some '\\'
  | '/' => some '/'
  | 'b' => some '\x08'
  | 'f' => some '\x0c'
  | 'n' => some '\n'
  | 'r' => some '\r'
  | 't' => some '\t'
  | _ => none

def isHighSurrogate (unit : Nat) : Bool :=
  0xD800 ≤ unit && unit ≤ 0xDBFF

def isLowSurrogate (unit : Nat) : Bool :=
  0xDC00 ≤ unit && unit ≤ 0xDFFF

/-- The character of a surrogate pair. -/
def pairChar (high low : Nat) : Char :=
  Char.ofNat ((high - 0xD800) * 0x400 + (low - 0xDC00) + 0x10000)

/-- Puts a character in front of what a string goes on with. -/
def consChar (c : Char) : Option (Option (List Char) × List Char) →
    Option (Option (List Char) × List Char) :=
  Option.map fun (text, rest) => (text.map (c :: ·), rest)

/-- What a string goes on with, made unreadable. -/
def spoil : Option (Option (List Char) × List Char) → Option (Option (List Char) × List Char) :=
  Option.map fun (_, rest) => (none, rest)

/-- The text of a string after its opening quote, and what follows the closing one. The text is
absent when a surrogate stands alone. -/
def stringBody : List Char → Option (Option (List Char) × List Char)
  | [] => none
  | '"' :: rest => some (some [], rest)
  | '\\' :: 'u' :: a :: b :: c :: d :: '\\' :: 'u' :: e :: f :: g :: h :: rest =>
    match hexUnit? a b c d with
    | none => none
    | some unit =>
      match isHighSurrogate unit, hexUnit? e f g h with
      | true, some next =>
        if isLowSurrogate next then consChar (pairChar unit next) (stringBody rest)
        else spoil (stringBody ('\\' :: 'u' :: e :: f :: g :: h :: rest))
      | true, none => none
      | false, _ =>
        let after := stringBody ('\\' :: 'u' :: e :: f :: g :: h :: rest)
        if isLowSurrogate unit then spoil after else consChar (Char.ofNat unit) after
  | '\\' :: 'u' :: a :: b :: c :: d :: rest =>
    match hexUnit? a b c d with
    | none => none
    | some unit =>
      if isHighSurrogate unit || isLowSurrogate unit then spoil (stringBody rest)
      else consChar (Char.ofNat unit) (stringBody rest)
  | '\\' :: c :: rest =>
    match simpleEscape? c with
    | none => none
    | some escaped => consChar escaped (stringBody rest)
  | c :: rest => if c.toNat < 0x20 then none else consChar c (stringBody rest)

/-- The digits that a text starts with, and what follows them. -/
def digits (cs : List Char) : List Nat × List Char :=
  ((cs.takeWhile Char.isDigit).map digitValue, cs.dropWhile Char.isDigit)

/-- At least one digit. -/
def someDigits (cs : List Char) : Option (List Nat × List Char) :=
  match digits cs with
  | ([], _) => none
  | found => some found

/-- The whole part of a number: a zero alone, or digits that do not start with one. -/
def wholePart : List Char → Option (List Nat × List Char)
  | '0' :: rest => some ([0], rest)
  | cs => someDigits cs

def fractionPart : List Char → Option (Option (List Nat) × List Char)
  | '.' :: rest => (someDigits rest).map fun (found, after) => (some found, after)
  | cs => some (none, cs)

/-- The exponent of a number: whether it is negative, and its digits. -/
def exponentPart : List Char → Option (Option (Bool × List Nat) × List Char)
  | e :: rest =>
    if e = 'e' ∨ e = 'E' then
      let (negative, after) := match rest with
        | '-' :: after => (true, after)
        | '+' :: after => (false, after)
        | after => (false, after)
      (someDigits after).map fun (found, after) => (some (negative, found), after)
    else some (none, e :: rest)
  | [] => some (none, [])

/-- A number without its sign. -/
def numberToken (negative : Bool) (cs : List Char) : Option (Number.Token × List Char) := do
  let (whole, afterWhole) ← wholePart cs
  let (fraction, afterFraction) ← fractionPart afterWhole
  let (exponent, rest) ← exponentPart afterFraction
  return (⟨negative, whole, fraction, exponent⟩, rest)

/-- The document of a number token. -/
def ofToken (token : Number.Token) : Document :=
  match token.number? with
  | some n => .number n
  | none => .unreadable

/-- The document of a string body. -/
def ofText : Option (List Char) → Document
  | some text => .string (String.ofList text)
  | none => .unreadable

/-- The document of an object: unreadable when one of its names is. -/
def ofMembers (members : List (Option (List Char) × Document)) : Document :=
  match members.mapM fun (name, document) => name.map fun text =>
      (String.ofList text, document) with
  | some entries => .table entries
  | none => .unreadable

mutual

/-- One value and what follows it. Every call consumes a character, so the length of the text is
fuel enough. -/
def value : Nat → List Char → Option (Document × List Char)
  | 0, _ => none
  | fuel + 1, cs =>
    match skipSpaces cs with
    | 'n' :: 'u' :: 'l' :: 'l' :: rest => some (.null, rest)
    | 't' :: 'r' :: 'u' :: 'e' :: rest => some (.bool true, rest)
    | 'f' :: 'a' :: 'l' :: 's' :: 'e' :: rest => some (.bool false, rest)
    | '"' :: rest => (stringBody rest).map fun (text, after) => (ofText text, after)
    | '[' :: rest =>
      match skipSpaces rest with
      | ']' :: after => some (.list [], after)
      | start => (items fuel start).map fun (found, after) => (.list found, after)
    | '\x7b' :: rest =>
      match skipSpaces rest with
      | '\x7d' :: after => some (.table [], after)
      | start => (members fuel start).map fun (found, after) => (ofMembers found, after)
    | '-' :: rest => (numberToken true rest).map fun (token, after) => (ofToken token, after)
    | start => (numberToken false start).map fun (token, after) => (ofToken token, after)

/-- The items of a list up to its closing bracket. -/
def items : Nat → List Char → Option (List Document × List Char)
  | 0, _ => none
  | fuel + 1, cs =>
    match value fuel cs with
    | none => none
    | some (first, rest) =>
      match skipSpaces rest with
      | ',' :: after => (items fuel after).map fun (others, end_) => (first :: others, end_)
      | ']' :: after => some ([first], after)
      | _ => none

/-- The members of an object up to its closing brace. -/
def members : Nat → List Char → Option (List (Option (List Char) × Document) × List Char)
  | 0, _ => none
  | fuel + 1, cs =>
    match skipSpaces cs with
    | '"' :: start =>
      match stringBody start with
      | none => none
      | some (name, afterName) =>
        match skipSpaces afterName with
        | ':' :: afterColon =>
          match value fuel afterColon with
          | none => none
          | some (document, rest) =>
            match skipSpaces rest with
            | ',' :: after =>
              (members fuel after).map fun (others, end_) => ((name, document) :: others, end_)
            | '\x7d' :: after => some ([(name, document)], after)
            | _ => none
        | _ => none
    | _ => none

end

/-- The document of a JSON text. -/
def read? (text : String) : Option Document :=
  let cs := text.toList
  match value (2 * cs.length + 2) cs with
  | some (document, rest) =>
    if (skipSpaces rest).isEmpty then some (document.within levelLimit) else none
  | none => none

end PipelineLineage.Json
