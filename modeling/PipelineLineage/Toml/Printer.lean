import PipelineLineage.Json.Printer
import PipelineLineage.Toml.Quoted
import PipelineLineage.Toml.Tree

set_option autoImplicit false

/-!
# Writing TOML

A table is written as the assignments of its values, followed by the tables in it, each under a
header of its own. A list all of whose items are tables becomes an array of tables. A header is left
out when its table holds nothing but other tables. Strings take the plainest form that needs no
escapes; lists of more than one item have a line for each.

What has no form in TOML is refused: null, and integers beyond a signed 64-bit word.
-/

namespace PipelineLineage.Toml

/-! ## Strings -/

def longestRun (mark : Char) (cs : List Char) : Nat :=
  (cs.foldl (fun (best, run) c =>
    if c = mark then (max best (run + 1), run + 1) else (best, 0)) (0, 0)).1

/-- Whether a character can only be written as an escape. -/
def needsEscape (c : Char) : Bool :=
  (c.toNat < 0x20 && c ≠ '\n' && c ≠ '\t') || c.toNat = 0x7F

def upperHex (n : Nat) : Char :=
  (Nat.digitChar (n % 16)).toUpper

/-- A character inside a basic string; quotes are left to the caller. -/
def escapeChar (lines : Bool) (c : Char) : List Char :=
  match c with
  | '\x08' => ['\\', 'b']
  | '\t' => ['\\', 't']
  | '\n' => if lines then ['\n'] else ['\\', 'n']
  | '\x0c' => ['\\', 'f']
  | '\r' => ['\\', 'r']
  | '\\' => ['\\', '\\']
  | c =>
    if needsEscape c then ['\\', 'u', '0', '0', upperHex (c.toNat / 16), upperHex c.toNat]
    else [c]

/-- The body of a basic string; a run of quotes is broken by an escape before it gets too long. -/
def escapeBody (lines : Bool) (allowed run : Nat) : List Char → List Char
  | [] => []
  | '"' :: rest =>
    if allowed ≤ run then '\\' :: '"' :: escapeBody lines allowed 0 rest
    else '"' :: escapeBody lines allowed (run + 1) rest
  | c :: rest => escapeChar lines c ++ escapeBody lines allowed 0 rest

def basicText (cs : List Char) : List Char :=
  '"' :: escapeBody false 0 0 cs ++ ['"']

def basicLinesText (breaks : Bool) (cs : List Char) : List Char :=
  ['"', '"', '"'] ++ (if breaks then ['\n'] else []) ++ escapeBody true 2 0 cs ++ ['"', '"', '"']

def literalText (cs : List Char) : List Char :=
  '\'' :: cs ++ ['\'']

def literalLinesText (breaks : Bool) (cs : List Char) : List Char :=
  ['\'', '\'', '\''] ++ (if breaks then ['\n'] else []) ++ cs ++ ['\'', '\'', '\'']

/-- A string in the first form that shows it as it is: basic, literal, basic on several lines,
literal on several lines; failing these, with escapes. -/
def stringText (s : String) : List Char :=
  let cs := s.toList
  let breaks := cs.contains '\n'
  let escapes := cs.any needsEscape
  let slashes := cs.contains '\\'
  let doubles := longestRun '"' cs
  let singles := longestRun '\'' cs
  if !escapes && !slashes && doubles = 0 && !breaks then basicText cs
  else if !escapes && singles = 0 && !breaks then literalText cs
  else if !escapes && !slashes && doubles ≤ 2 then basicLinesText breaks cs
  else if !escapes && singles ≤ 2 then literalLinesText breaks cs
  else if breaks then basicLinesText breaks cs
  else basicText cs

/-- A part of a key: bare where it may be, else in the first form on one line that shows it. -/
def keyText (name : String) : List Char :=
  let cs := name.toList
  let bare := fun (c : Char) => c.isAlphanum || c = '_' || c = '-'
  let escapes := cs.any needsEscape || cs.contains '\n'
  if !cs.isEmpty && cs.all bare then cs
  else if !escapes && !cs.contains '\\' && !cs.contains '"' then basicText cs
  else if !escapes && !cs.contains '\'' then literalText cs
  else basicText cs

def pathText (path : List String) : List Char :=
  ['.'].intercalate (path.map keyText)

/-! ## Values -/

/-- Floats are always positional. -/
def floatLayout : Decimal.Layout := ⟨-400, 400⟩

def numberText? : Number → Option (List Char)
  | .int n => if fitsSigned 64 n then some (Number.renderInt n) else none
  | .float bits => some (floatLayout.render bits)

/-- The text of an array from those of its items. -/
def arrayText (items : List (List Char)) : List Char :=
  match items with
  | [] => ['[', ']']
  | [item] => '[' :: item ++ [']']
  | items => '[' :: items.flatMap (fun item => "\n    ".toList ++ item ++ [',']) ++ ['\n', ']']

/-- The text of a table in braces from those of its assignments. -/
def bracesText (assignments : List (List Char)) : List Char :=
  match assignments with
  | [] => ['\x7b', '\x7d']
  | assignments => "\x7b ".toList ++ ", ".toList.intercalate assignments ++ " \x7d".toList

mutual

/-- The text of a value in an assignment. -/
def valueText? : Document → Option (List Char)
  | .null => none
  | .unreadable => none
  | .nonfinite => some "nan".toList
  | .bool b => some (Json.renderBool b)
  | .number n => numberText? n
  | .string s => some (stringText s)
  | .list items => (itemTexts? items).map arrayText
  | .table entries => (entryTexts? entries).map bracesText

def itemTexts? : List Document → Option (List (List Char))
  | [] => some []
  | item :: items =>
    match valueText? item, itemTexts? items with
    | some text, some texts => some (text :: texts)
    | _, _ => none

def entryTexts? : List (String × Document) → Option (List (List Char))
  | [] => some []
  | (name, entry) :: entries =>
    match valueText? entry, entryTexts? entries with
    | some text, some texts => some ((keyText name ++ " = ".toList ++ text) :: texts)
    | _, _ => none

end

/-! ## Tables -/

def isTable : Document → Bool
  | .table _ => true
  | _ => false

/-- Whether an entry is written under headers of its own. -/
def isSection : Document → Bool
  | .table _ => true
  | .list items => !items.isEmpty && items.all isTable
  | _ => false

/-- The lines of assignments. -/
def assignmentLines? (entries : List (String × Document)) : Option (List Char) :=
  (entryTexts? (entries.filter fun entry => !isSection entry.2)).map fun texts =>
    texts.flatMap fun text => text ++ ['\n']

/-- The block of a table under its header; nothing when the table is all tables. -/
def headedBlock? (path : List String) (entries : List (String × Document)) :
    Option (List (List Char)) :=
  if !entries.isEmpty && entries.all fun entry => isSection entry.2 then some []
  else
    (assignmentLines? entries).map fun lines => ['[' :: pathText path ++ "]\n".toList ++ lines]

def elementBlock? (path : List String) (entries : List (String × Document)) :
    Option (List (List Char)) :=
  (assignmentLines? entries).map fun lines =>
    ["[[".toList ++ pathText path ++ "]]\n".toList ++ lines]

mutual

/-- The blocks of the tables in a document at a path, outer ones first. -/
def blocks? (path : List String) : Document → Option (List (List Char))
  | .table entries =>
    match headedBlock? path entries, innerBlocks? path entries with
    | some block, some inner => some (block ++ inner)
    | _, _ => none
  | .list items =>
    if !items.isEmpty && items.all isTable then elementBlocks? path items else some []
  | _ => some []

/-- The blocks of the tables among entries. -/
def innerBlocks? (path : List String) : List (String × Document) → Option (List (List Char))
  | [] => some []
  | (name, entry) :: entries =>
    match blocks? (path ++ [name]) entry, innerBlocks? path entries with
    | some first, some others => some (first ++ others)
    | _, _ => none

/-- The blocks of the elements of an array of tables. -/
def elementBlocks? (path : List String) : List Document → Option (List (List Char))
  | [] => some []
  | .table entries :: items =>
    match elementBlock? path entries, innerBlocks? path entries, elementBlocks? path items with
    | some block, some inner, some others => some (block ++ inner ++ others)
    | _, _, _ => none
  | _ :: _ => none

end

/-- The TOML text of the entries of a document. Blocks are separated by empty lines. -/
def render? (entries : List (String × Document)) : Option String :=
  match assignmentLines? entries, innerBlocks? [] entries with
  | some lines, some inner =>
    let root := if lines.isEmpty then [] else [lines]
    some (String.ofList (['\n'].intercalate (root ++ inner)))
  | _, _ => none

end PipelineLineage.Toml
