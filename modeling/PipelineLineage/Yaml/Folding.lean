import PipelineLineage.Text.Digits
import PipelineLineage.Yaml.Source

set_option autoImplicit false

/-!
# Scalars over several lines

Plain and quoted scalars may go on over lines. What separates two of their words is kept where it
stands on one line; a single line break reads as a space, and of several the first is dropped.
-/

namespace PipelineLineage.Yaml

open Text

/-- What the blanks and line breaks between two words stand for. -/
def fold (gap : List Char) : List Char :=
  match gap.filter isBreak with
  | [] => gap
  | ['\n'] => [' ']
  | '\n' :: others => others
  | breaks => breaks

/-- The text of a string in single quotes after its opening one, of which a doubled one stands for
itself, and what follows its closing one. The gap holds what separates the next word. -/
def singleQuoted (gap : List Char) : List Spot → Option (List Char × List Spot)
  | [] => none
  | s :: rest =>
    if s.separates then singleQuoted (gap ++ [s.char]) rest
    else if isDocumentMark (s :: rest) then none
    else if s.char = '\'' then
      match rest with
      | ⟨'\'', _, _, _⟩ :: rest =>
        (singleQuoted [] rest).map fun (text, after) => (fold gap ++ '\'' :: text, after)
      | after => some (fold gap, after)
    else (singleQuoted [] rest).map fun (text, after) => (fold gap ++ s.char :: text, after)

/-- What a character stands for after a backslash. -/
def escaped? : Char → Option Char
  | '0' => some '\x00'
  | 'a' => some '\x07'
  | 'b' => some '\x08'
  | 't' => some '\t'
  | '\t' => some '\t'
  | 'n' => some '\n'
  | 'v' => some '\x0b'
  | 'f' => some '\x0c'
  | 'r' => some '\r'
  | 'e' => some '\x1b'
  | ' ' => some ' '
  | '"' => some '"'
  | '/' => some '/'
  | '\\' => some '\\'
  | 'N' => some '\x85'
  | '_' => some '\xa0'
  | 'L' => some '\u2028'
  | 'P' => some '\u2029'
  | _ => none

/-- How many digits of a code point follow a character after a backslash. -/
def codeLength? : Char → Option Nat
  | 'x' => some 2
  | 'u' => some 4
  | 'U' => some 8
  | _ => none

/-- What a string in double quotes holds that is not read to its end. -/
inductive Pending
  /-- The gap before the next word; whether it starts with a line break that was escaped. -/
  | gap (joined : Bool) (text : List Char)
  /-- A code point: how many of its digits are missing, and its value so far. -/
  | code (missing value : Nat)

/-- What a gap stands for; of one that was escaped only the further line breaks count. -/
def foldPending (joined : Bool) (gap : List Char) : List Char :=
  if joined then gap.filter isBreak else fold gap

/-- The text of a string in double quotes after its opening one, and what follows its closing
one. -/
def doubleQuoted : Pending → List Spot → Option (List Char × List Spot)
  | _, [] => none
  | .code missing value, s :: rest =>
    match hexValue? s.char with
    | none => none
    | some digit =>
      let value := value * 16 + digit
      if 1 < missing then doubleQuoted (.code (missing - 1) value) rest
      else if value.isValidChar then
        (doubleQuoted (.gap false []) rest).map fun (text, after) =>
          (Char.ofNat value :: text, after)
      else none
  | .gap joined gap, s :: rest =>
    if s.separates then doubleQuoted (.gap joined (gap ++ [s.char])) rest
    else if isDocumentMark (s :: rest) then none
    else
      let before := foldPending joined gap
      if s.char = '"' then some (before, rest)
      else if s.char = '\\' then
        match rest with
        | [] => none
        | e :: rest =>
          if e.isBreak then
            (doubleQuoted (.gap true []) rest).map fun (text, after) => (before ++ text, after)
          else
            match codeLength? e.char, escaped? e.char with
            | some missing, _ =>
              (doubleQuoted (.code missing 0) rest).map fun (text, after) => (before ++ text, after)
            | none, some c =>
              (doubleQuoted (.gap false []) rest).map fun (text, after) =>
                (before ++ c :: text, after)
            | none, none => none
      else
        (doubleQuoted (.gap false []) rest).map fun (text, after) =>
          (before ++ s.char :: text, after)

/-- The characters with which no plain scalar starts. -/
def indicators : List Char := "-?:,[]\x7b\x7d#&*!|>'\"%@\x60".toList

/-- The characters that end a plain scalar in a collection in brackets. -/
def flowIndicators : List Char := ",[]\x7b\x7d".toList

/-- Whether a plain scalar starts here. -/
def startsPlain (inFlow : Bool) : List Spot → Bool
  | [] => false
  | s :: rest =>
    !s.separates && !indicators.contains s.char ||
      s.char = '-' && !endsWord rest ||
      !inFlow && (s.char = '?' || s.char = ':') && !endsWord rest

/-- Whether a plain scalar ends here, after a gap: before a mark of a document, a comment, a line
that is not indented as deep as the floor, or a mark of its surroundings. -/
def endsPlain (floor : Nat) (inFlow : Bool) (gap : List Spot) : List Spot → Bool
  | [] => true
  | s :: rest =>
    isDocumentMark (s :: rest) || !gap.isEmpty && s.char = '#' ||
      gap.any Spot.isBreak && !inFlow && s.column < floor ||
      s.char = ':' && endsWord rest || inFlow && flowIndicators.contains s.char

/-- Whether a colon stands here right before a mark of a collection in brackets. -/
def isStrayColon : List Spot → Bool
  | s :: next :: _ => s.char = ':' && (next.char = '?' || flowIndicators.contains next.char)
  | _ => false

/-- The text of a plain scalar, whether a line break follows it, and what comes after. The gap holds
what separates the next word. -/
def plain (floor : Nat) (inFlow : Bool) (gap : List Spot) :
    List Spot → Option (List Char × Bool × List Spot)
  | [] => some ([], gap.any Spot.isBreak, [])
  | s :: rest =>
    if s.separates then
      if s.char = '\t' && gap.any Spot.isBreak && s.column < floor then none
      else plain floor inFlow (gap ++ [s]) rest
    else if endsPlain floor inFlow gap (s :: rest) then some ([], gap.any Spot.isBreak, s :: rest)
    else if inFlow && isStrayColon (s :: rest) then none
    else
      (plain floor inFlow [] rest).map fun (text, broken, after) =>
        (fold (gap.map Spot.char) ++ s.char :: text, broken, after)

end PipelineLineage.Yaml
