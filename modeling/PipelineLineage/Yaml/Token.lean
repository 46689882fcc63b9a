import PipelineLineage.Yaml.Folding
import PipelineLineage.Yaml.Indented
import PipelineLineage.Yaml.Tag

set_option autoImplicit false

/-!
# Tokens of YAML

The marks and scalars of a document. Indentation becomes tokens that open and close collections. A
scalar that a colon follows on its line is a key, so the token that announces a key is put before it
only when the colon is met; until then it is a candidate.
-/

namespace PipelineLineage.Yaml

inductive Token
  | directive (content : Directive)
  | documentStart
  | documentEnd
  | sequenceStart
  | mappingStart
  /-- The end of a sequence or a mapping that indentation shows. -/
  | blockEnd
  | item
  | key
  | value
  | flowSequenceStart
  | flowSequenceEnd
  | flowMappingStart
  | flowMappingEnd
  | comma
  | anchor (name : List Char)
  | reference (name : List Char)
  | tag (text : TagText)
  /-- A scalar; whether it is written without quotes or indentation of its own. -/
  | scalar (isPlain : Bool) (text : List Char)
  deriving DecidableEq

/-- What may turn out to be a key. -/
structure Candidate where
  /-- The number of tokens before it. -/
  place : Nat
  start : Spot
  /-- Whether nothing but a key may stand there. -/
  required : Bool

/-- The greatest number of bytes of a key that no mark announces. -/
def keyLimit : Nat := 1024

/-- Whether a candidate is no key any more at a spot: keys take one line and have a greatest
length. -/
def Candidate.isStale (c : Candidate) (s : Spot) : Bool :=
  c.start.line < s.line || c.start.offset + keyLimit < s.offset

/-- What is known of a document up to a spot. -/
structure Lexer where
  /-- The tokens, the latest first. -/
  tokens : List Token := []
  /-- The columns of the collections that indentation shows, the innermost first. -/
  indents : List Nat := []
  /-- The candidate of the innermost collection. -/
  candidate : Option Candidate := none
  /-- Those around the collections in brackets, the innermost first. -/
  outer : List (Option Candidate) := []
  /-- Whether a key may start. -/
  keyAllowed : Bool := true

namespace Lexer

/-- Whether the spot lies in a collection in brackets. -/
def inFlow (l : Lexer) : Bool := !l.outer.isEmpty

/-- The least column of what stands inside the innermost collection that indentation shows. -/
def floor (l : Lexer) : Nat :=
  match l.indents with
  | [] => 0
  | column :: _ => column + 1

def add (l : Lexer) (token : Token) : Lexer := { l with tokens := token :: l.tokens }

/-- Puts a token after the first ones, as many as the place says. -/
def insertAt (l : Lexer) (place : Nat) (token : Token) : Lexer :=
  { l with tokens := l.tokens.insertIdx (l.tokens.length - place) token }

/-- Opens a collection at a column unless one is open there. -/
def openAt (l : Lexer) (column place : Nat) (token : Token) : Lexer :=
  if l.inFlow || column < l.floor then l
  else { l.insertAt place token with indents := column :: l.indents }

/-- Closes the collections that have a property of their columns. -/
def close (l : Lexer) (p : Nat → Bool) : Lexer :=
  if l.inFlow then l
  else
    let ended := l.indents.takeWhile p
    { l with
      tokens := ended.map (fun _ => .blockEnd) ++ l.tokens
      indents := l.indents.drop ended.length }

/-- Gives up the candidate, unless it has to be a key. -/
def dropCandidate? (l : Lexer) : Option Lexer :=
  if l.candidate.any (·.required) then none else some { l with candidate := none }

/-- Makes what starts at a spot a candidate where a key may start. -/
def saveCandidate? (l : Lexer) (s : Spot) : Option Lexer :=
  if l.keyAllowed then
    l.dropCandidate?.map fun l =>
      { l with
        candidate :=
          some ⟨l.tokens.length, s, !l.inFlow && l.indents.head? = some s.column⟩
        keyAllowed := false }
  else some l

/-- Gives up the candidates that are stale at a spot, unless one has to be a key. -/
def dropStale? (l : Lexer) (s : Spot) : Option Lexer :=
  let isLost (c : Candidate) : Bool := c.required && c.isStale s
  if (l.candidate :: l.outer).any fun c => c.any isLost then none
  else
    some { l with
      candidate := l.candidate.filter fun c => !c.isStale s
      outer := l.outer.map fun c => c.filter fun c => !c.isStale s }

/-- Adds the mark of a document, which ends all its collections. -/
def mark? (l : Lexer) (token : Token) : Option Lexer :=
  ((l.close fun _ => true).dropCandidate?).map fun l => { l.add token with keyAllowed := false }

/-- Adds the opening bracket of a collection, which may be a key. -/
def openFlow? (l : Lexer) (s : Spot) (token : Token) : Option Lexer :=
  (l.saveCandidate? s).map fun l =>
    { l.add token with candidate := none, outer := l.candidate :: l.outer, keyAllowed := true }

def closeFlow? (l : Lexer) (token : Token) : Option Lexer :=
  l.dropCandidate?.map fun l =>
    { l.add token with
      candidate := l.outer.head?.getD none
      outer := l.outer.drop 1
      keyAllowed := false }

def comma? (l : Lexer) : Option Lexer :=
  l.dropCandidate?.map fun l => { l.add .comma with keyAllowed := true }

def item? (l : Lexer) (s : Spot) : Option Lexer :=
  if !l.inFlow && !l.keyAllowed then none
  else
    (l.openAt s.column l.tokens.length .sequenceStart).dropCandidate?.map fun l =>
      { l.add .item with keyAllowed := true }

/-- Adds the mark that announces a key. -/
def key? (l : Lexer) (s : Spot) : Option Lexer :=
  if !l.inFlow && !l.keyAllowed then none
  else
    (l.openAt s.column l.tokens.length .mappingStart).dropCandidate?.map fun l =>
      { l.add .key with keyAllowed := !l.inFlow }

/-- Adds the mark of a value. The candidate before it is its key; without one the key was announced,
or is missing. -/
def value? (l : Lexer) (s : Spot) : Option Lexer :=
  match l.candidate with
  | some c =>
    let l := (l.insertAt c.place .key).openAt c.start.column c.place .mappingStart
    some { l.add .value with candidate := none, keyAllowed := false }
  | none =>
    if !l.inFlow && !l.keyAllowed then none
    else
      let l := l.openAt s.column l.tokens.length .mappingStart
      some { l.add .value with keyAllowed := !l.inFlow }

/-- Adds a scalar in quotes, which may be a key. -/
def quoted? (l : Lexer) (s : Spot) (found : Option (List Char × List Spot)) :
    Option (Lexer × List Spot) := do
  let l ← l.saveCandidate? s
  let (text, rest) ← found
  return ({ l.add (.scalar false text) with keyAllowed := false }, rest)

/-- Adds a plain scalar, which may be a key. A key may start on the line after it. -/
def plain? (l : Lexer) (s : Spot) (rest : List Spot) : Option (Lexer × List Spot) := do
  let floor := l.floor
  let l ← l.saveCandidate? s
  let (text, broken, rest) ← plain floor l.inFlow [] (s :: rest)
  return ({ l.add (.scalar true text) with keyAllowed := broken }, rest)

/-- Adds a scalar by indentation. A key may start on the line after it. -/
def indented? (l : Lexer) (folded : Bool) (rest : List Spot) : Option (Lexer × List Spot) := do
  let l ← l.dropCandidate?
  let (text, rest) ← indented l.floor folded rest
  return ({ l.add (.scalar false text) with keyAllowed := true }, rest)

/-- The characters besides a separator that may follow the name of an anchor. -/
def nameEnds : List Char := "?:,]\x7d%@\x60".toList

/-- Adds an anchor or a reference to one; either may stand before a key. -/
def name? (l : Lexer) (s : Spot) (token : List Char → Token) (rest : List Spot) :
    Option (Lexer × List Spot) := do
  let l ← l.saveCandidate? s
  let (name, rest) := spanChars isNameChar rest
  if name.isEmpty || !(endsWord rest || (rest.head?.map Spot.char).any nameEnds.contains) then none
  else return ({ l.add (token name) with keyAllowed := false }, rest)

/-- Adds a tag, which may stand before a key. -/
def readTag? (l : Lexer) (s : Spot) (rest : List Spot) : Option (Lexer × List Spot) := do
  let l ← l.saveCandidate? s
  let (text, rest) ← tag? l.inFlow (s :: rest)
  return ({ l.add (.tag text) with keyAllowed := false }, rest)

def readDirective? (l : Lexer) (rest : List Spot) : Option (Lexer × List Spot) := do
  let (content, rest) ← directive? rest
  let rest ← restOfLine? rest
  return (← l.mark? (.directive content), rest)

/-- Adds the token that starts at a spot, and gives what follows it. -/
def step? (l : Lexer) (s : Spot) (rest : List Spot) : Option (Lexer × List Spot) :=
  let single (found : Option Lexer) : Option (Lexer × List Spot) := found.map fun l => (l, rest)
  if s.column = 0 && s.char = '%' then l.readDirective? rest
  else if isMark '-' (s :: rest) then (l.mark? .documentStart).map fun l => (l, rest.drop 2)
  else if isMark '.' (s :: rest) then (l.mark? .documentEnd).map fun l => (l, rest.drop 2)
  else if s.char = '[' then single (l.openFlow? s .flowSequenceStart)
  else if s.char = '\x7b' then single (l.openFlow? s .flowMappingStart)
  else if s.char = ']' then single (l.closeFlow? .flowSequenceEnd)
  else if s.char = '\x7d' then single (l.closeFlow? .flowMappingEnd)
  else if s.char = ',' then single l.comma?
  else if s.char = '-' && endsWord rest then single (l.item? s)
  else if s.char = '?' && (l.inFlow || endsWord rest) then single (l.key? s)
  else if s.char = ':' && (l.inFlow || endsWord rest) then single (l.value? s)
  else if s.char = '*' then l.name? s .reference rest
  else if s.char = '&' then l.name? s .anchor rest
  else if s.char = '!' then l.readTag? s rest
  else if s.char = '|' && !l.inFlow then l.indented? false rest
  else if s.char = '>' && !l.inFlow then l.indented? true rest
  else if s.char = '\'' then l.quoted? s (singleQuoted [] rest)
  else if s.char = '"' then l.quoted? s (doubleQuoted (.gap false []) rest)
  else if startsPlain l.inFlow (s :: rest) then l.plain? s rest
  else none

/-- Where the next token starts, and whether a key may start there: after blanks, comments and line
breaks. A tab may not stand where a key may start. A mark of the byte order may start a line. -/
def skip (inFlow : Bool) (inComment keyAllowed : Bool) : List Spot → Bool × List Spot
  | [] => (keyAllowed, [])
  | s :: rest =>
    if s.isBreak then skip inFlow false (keyAllowed || !inFlow) rest
    else if inComment then skip inFlow true keyAllowed rest
    else if s.char = '#' then skip inFlow true keyAllowed rest
    else if s.char = ' ' || s.char = '\t' && (inFlow || !keyAllowed) ||
        s.char = '\ufeff' && s.column = 0 then
      skip inFlow false keyAllowed rest
    else (keyAllowed, s :: rest)

/-- The tokens of a document up to its end. -/
def finish? (l : Lexer) : Option (List Token) :=
  ((l.close fun _ => true).dropCandidate?).map fun l => l.tokens.reverse

/-- The tokens of spots after those that are known; every token takes one spot at least. -/
def run? (l : Lexer) (spots : List Spot) : Option (List Token) :=
  match skip l.inFlow false l.keyAllowed spots with
  | (_, []) => l.finish?
  | (keyAllowed, s :: rest) =>
    match { l with keyAllowed }.dropStale? s with
    | none => none
    | some l =>
      match (l.close (s.column < ·)).step? s rest with
      | none => none
      | some (l, rest) =>
        if _shorter : rest.length < spots.length then l.run? rest else none
termination_by spots.length

end Lexer

def Token.ofText? (text : String) : Option (List Token) :=
  match spots? text with
  | none => none
  | some spots => Lexer.run? {} spots

end PipelineLineage.Yaml
