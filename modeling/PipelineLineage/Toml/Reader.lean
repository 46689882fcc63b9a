import PipelineLineage.Toml.Quoted
import PipelineLineage.Toml.Scalar
import PipelineLineage.Toml.Tree

set_option autoImplicit false

/-!
# Reading TOML

A TOML text is a sequence of statements: assignments, headers of tables and headers of elements of
an array. Assignments go to the table of the header before them. Keys have fewer parts, and
containers in values fewer levels, than a fixed limit.
-/

namespace PipelineLineage.Toml

/-- The least number of key parts, or of nested containers, that is refused. -/
def nestingLimit : Nat := 80

inductive Statement
  | assign (path : List String) (value : Document)
  | header (path : List String)
  | element (path : List String)

def isSpace (c : Char) : Bool :=
  c = ' ' || c = '\t'

def skipSpaces (cs : List Char) : List Char :=
  cs.dropWhile isSpace

/-- What follows a comment, if all its characters may stand in one. -/
def skipComment (cs : List Char) : Option (List Char) :=
  let comment := cs.takeWhile fun c => c ≠ '\n' && c ≠ '\r'
  if comment.all isPlain then some (cs.drop comment.length) else none

/-- What follows the end of a line, a comment before it included. -/
def lineEnd (cs : List Char) : Option (List Char) :=
  let after := match skipSpaces cs with
    | '#' :: rest => skipComment rest
    | rest => some rest
  match after with
  | some [] => some []
  | some ('\n' :: rest) => some rest
  | some ('\r' :: '\n' :: rest) => some rest
  | _ => none

/-- What follows blanks, line breaks and comments; the fuel is the length of the text. -/
def skipLines : Nat → List Char → Option (List Char)
  | 0, cs => some cs
  | fuel + 1, cs =>
    match skipSpaces cs with
    | '\n' :: rest => skipLines fuel rest
    | '\r' :: '\n' :: rest => skipLines fuel rest
    | '#' :: rest => (skipComment rest).bind (skipLines fuel)
    | rest => some rest

def isBareChar (c : Char) : Bool :=
  c.isAlphanum || c = '_' || c = '-'

def keyPart (cs : List Char) : Option (String × List Char) :=
  match cs with
  | '"' :: _ => (quotedLine? cs).map fun (text, rest) => (String.ofList text, rest)
  | '\'' :: _ => (quotedLine? cs).map fun (text, rest) => (String.ofList text, rest)
  | cs =>
    let bare := cs.takeWhile isBareChar
    if bare.isEmpty then none else some (String.ofList bare, cs.drop bare.length)

/-- The parts of a key, joined by points; the fuel bounds their number. -/
def key : Nat → List Char → Option (List String × List Char)
  | 0, _ => none
  | fuel + 1, cs =>
    match keyPart (skipSpaces cs) with
    | none => none
    | some (part, rest) =>
      match skipSpaces rest with
      | '.' :: after => (key fuel after).map fun (others, end_) => (part :: others, end_)
      | after => some ([part], after)

def limitedKey (cs : List Char) : Option (List String × List Char) :=
  key (nestingLimit - 1) cs

def isScalarChar (c : Char) : Bool :=
  c.isAlphanum || "+-_.:".toList.contains c

/-- A scalar token; a time may follow a day after one blank. -/
def scalarToken (cs : List Char) : List Char × List Char :=
  let token := cs.takeWhile isScalarChar
  let rest := cs.drop token.length
  match isDate token, rest with
  | true, ' ' :: next :: after =>
    if next.isDigit then
      let time := (next :: after).takeWhile isScalarChar
      (token ++ ' ' :: time, (next :: after).drop time.length)
    else (token, rest)
  | _, _ => (token, rest)

mutual

/-- A value and what follows it. The levels count the containers that may still be opened. -/
def value : Nat → Nat → List Char → Option (Document × List Char)
  | 0, _, _ => none
  | fuel + 1, levels, cs =>
    match cs with
    | '[' :: rest =>
      match levels with
      | 0 => none
      | levels + 1 =>
        match skipLines rest.length rest with
        | none => none
        | some (']' :: after) => some (.list [], after)
        | some start => (items fuel levels start).map fun (found, after) => (.list found, after)
    | '\x7b' :: rest =>
      match levels with
      | 0 => none
      | levels + 1 =>
        match skipSpaces rest with
        | '\x7d' :: after => some (.table [], after)
        | start =>
          match assignments fuel levels start with
          | none => none
          | some (found, after) => (bracedTable found).map fun document => (document, after)
    | '"' :: _ => (quoted? cs).map fun (text, rest) => (.string (String.ofList text), rest)
    | '\'' :: _ => (quoted? cs).map fun (text, rest) => (.string (String.ofList text), rest)
    | cs =>
      let (token, rest) := scalarToken cs
      (scalar? token).map fun document => (document, rest)

/-- The items of an array up to its closing bracket, which a comma may precede. -/
def items : Nat → Nat → List Char → Option (List Document × List Char)
  | 0, _, _ => none
  | fuel + 1, levels, cs =>
    match value fuel levels cs with
    | none => none
    | some (first, rest) =>
      match skipLines rest.length rest with
      | some (']' :: after) => some ([first], after)
      | some (',' :: after) =>
        match skipLines after.length after with
        | some (']' :: end_) => some ([first], end_)
        | some next => (items fuel levels next).map fun (others, end_) => (first :: others, end_)
        | none => none
      | _ => none

/-- The assignments of a table in braces, on one line and without a comma at the end. -/
def assignments : Nat → Nat → List Char → Option (List (List String × Document) × List Char)
  | 0, _, _ => none
  | fuel + 1, levels, cs =>
    match limitedKey cs with
    | some (path, '=' :: afterEquals) =>
      match value fuel levels (skipSpaces afterEquals) with
      | none => none
      | some (document, rest) =>
        match skipSpaces rest with
        | '\x7d' :: after => some ([(path, document)], after)
        | ',' :: after =>
          (assignments fuel levels after).map fun (others, end_) =>
            ((path, document) :: others, end_)
        | _ => none
    | _ => none

end

/-- A statement and the lines after it. -/
def statement (cs : List Char) : Option (Statement × List Char) :=
  match cs with
  | '[' :: '[' :: rest =>
    match limitedKey rest with
    | some (path, ']' :: ']' :: after) => (lineEnd after).map fun lines => (.element path, lines)
    | _ => none
  | '[' :: rest =>
    match limitedKey rest with
    | some (path, ']' :: after) => (lineEnd after).map fun lines => (.header path, lines)
    | _ => none
  | cs =>
    match limitedKey cs with
    | some (path, '=' :: afterEquals) =>
      match value (2 * cs.length) (nestingLimit - 1) (skipSpaces afterEquals) with
      | some (document, after) => (lineEnd after).map fun lines => (.assign path document, lines)
      | none => none
    | _ => none

/-- The statements of a text; the fuel is its length. -/
def statements : Nat → List Char → Option (List Statement)
  | 0, cs => if cs.isEmpty then some [] else none
  | fuel + 1, cs =>
    match skipLines cs.length cs with
    | none => none
    | some [] => some []
    | some start =>
      match statement start with
      | none => none
      | some (first, rest) => (statements fuel rest).map (first :: ·)

/-- The container in which a path ends, and its last part. -/
def splitLast : List String → Option (List String × String)
  | [] => none
  | [last] => some ([], last)
  | part :: rest => (splitLast rest).map fun (parents, last) => (part :: parents, last)

/-- The tables so far, and the path of the header that assignments belong to. -/
structure Progression where
  entries : Entries
  current : List String

def Progression.follow (p : Progression) : Statement → Option Progression
  | .assign path document =>
    (p.entries.modifyAt p.current fun inner => inner.assign path (.value document)).map
      fun entries => { p with entries }
  | .header path =>
    (splitLast path).bind fun (parents, last) =>
      (p.entries.modifyAt parents (Entries.openTable last)).map fun entries => ⟨entries, path⟩
  | .element path =>
    (splitLast path).bind fun (parents, last) =>
      (p.entries.modifyAt parents (Entries.openElement last)).map fun entries => ⟨entries, path⟩

/-- The text without the byte order mark that it may start with. -/
def dropByteOrderMark : List Char → List Char
  | '\uFEFF' :: rest => rest
  | cs => cs

def read? (text : String) : Option Document :=
  let cs := dropByteOrderMark text.toList
  match statements (cs.length + 1) cs with
  | none => none
  | some found =>
    (found.foldlM Progression.follow ⟨[], []⟩).map fun p => .table (entriesDocument p.entries)

end PipelineLineage.Toml
