import PipelineLineage.Value.Number

set_option autoImplicit false

/-!
# Writing JSON

The compact text of a value, with no blanks, and the indented one, with two blanks a level and each
item or field on its own line. Only quotes, backslashes and control characters are escaped.
-/

namespace PipelineLineage.Json

def hexDigit (n : Nat) : Char :=
  Nat.digitChar (n % 16)

/-- A character inside a quoted text. -/
def escape (c : Char) : List Char :=
  match c with
  | '"' => ['\\', '"']
  | '\\' => ['\\', '\\']
  | '\x08' => ['\\', 'b']
  | '\x0c' => ['\\', 'f']
  | '\n' => ['\\', 'n']
  | '\r' => ['\\', 'r']
  | '\t' => ['\\', 't']
  | c =>
    if c.toNat < 0x20 then ['\\', 'u', '0', '0', hexDigit (c.toNat / 16), hexDigit c.toNat]
    else [c]

def quote (s : String) : List Char :=
  '"' :: s.toList.flatMap escape ++ ['"']

def renderBool (b : Bool) : List Char :=
  (if b then "true" else "false").toList

mutual

/-- The compact text of a value. -/
def render : Value → List Char
  | .null => "null".toList
  | .bool b => renderBool b
  | .number n => n.render
  | .string s => quote s
  | .list items => '[' :: renderItems items ++ [']']
  | .map fields => '\x7b' :: renderFields fields ++ ['\x7d']

def renderItems : List Value → List Char
  | [] => []
  | [item] => render item
  | item :: items => render item ++ ',' :: renderItems items

def renderFields : List (String × Value) → List Char
  | [] => []
  | [(name, value)] => quote name ++ ':' :: render value
  | (name, value) :: fields => quote name ++ ':' :: render value ++ ',' :: renderFields fields

end

/-- The start of a line at the given level. -/
def newLine (level : Nat) : List Char :=
  '\n' :: List.replicate (2 * level) ' '

mutual

/-- The indented text of a value that stands at the given level. Empty containers stay on one
line. -/
def renderLines (level : Nat) : Value → List Char
  | .list [] => ['[', ']']
  | .map [] => ['\x7b', '\x7d']
  | .list items => '[' :: itemLines (level + 1) items ++ newLine level ++ [']']
  | .map fields => '\x7b' :: fieldLines (level + 1) fields ++ newLine level ++ ['\x7d']
  | .null => "null".toList
  | .bool b => renderBool b
  | .number n => n.render
  | .string s => quote s

def itemLines (level : Nat) : List Value → List Char
  | [] => []
  | [item] => newLine level ++ renderLines level item
  | item :: items => newLine level ++ renderLines level item ++ ',' :: itemLines level items

def fieldLines (level : Nat) : List (String × Value) → List Char
  | [] => []
  | [(name, value)] => newLine level ++ quote name ++ ':' :: ' ' :: renderLines level value
  | (name, value) :: fields =>
    newLine level ++ quote name ++ ':' :: ' ' :: renderLines level value ++
      ',' :: fieldLines level fields

end

end PipelineLineage.Json
