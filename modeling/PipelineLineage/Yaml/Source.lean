set_option autoImplicit false

/-!
# The source of a YAML document

The characters of a text with the places where they stand. Line breaks of any spelling
read as one line feed, except the separators of lines and of paragraphs, which stay what they are.
-/

namespace PipelineLineage.Yaml

/-- A character of a text, and where it stands. -/
structure Spot where
  char : Char
  line : Nat
  /-- The number of characters before it in its line. -/
  column : Nat
  /-- The number of bytes before it in its line. -/
  offset : Nat
  deriving DecidableEq

/-- Whether a text may hold a character: no control characters but those that move on. -/
def isAllowed (c : Char) : Bool :=
  c = '\t' || c = '\n' || c = '\r' || ' ' ≤ c && c ≤ '~' || c = '\x85' ||
    '\xa0' ≤ c && c ≠ '\ufffe' && c ≠ '\uffff'

def isBlank (c : Char) : Bool := c = ' ' || c = '\t'

def isBreak (c : Char) : Bool := c = '\n' || c = '\u2028' || c = '\u2029'

namespace Spot

def isBlank (s : Spot) : Bool := Yaml.isBlank s.char

def isBreak (s : Spot) : Bool := Yaml.isBreak s.char

/-- Whether the character separates words. -/
def separates (s : Spot) : Bool := s.isBlank || s.isBreak

end Spot

/-- The spots of characters from a place on. -/
def locate (line column offset : Nat) : List Char → List Spot
  | [] => []
  | '\r' :: '\n' :: rest => ⟨'\n', line, column, offset⟩ :: locate (line + 1) 0 0 rest
  | c :: rest =>
    if c = '\r' || c = '\x85' then ⟨'\n', line, column, offset⟩ :: locate (line + 1) 0 0 rest
    else if isBreak c then ⟨c, line, column, offset⟩ :: locate (line + 1) 0 0 rest
    else ⟨c, line, column, offset⟩ :: locate line (column + 1) (offset + c.utf8Size) rest

/-- The spots of a text that holds no character that may not stand there. -/
def spots? (text : String) : Option (List Spot) :=
  if text.toList.all isAllowed then some (locate 0 0 0 text.toList) else none

/-- Whether a word ends before these spots. -/
def endsWord : List Spot → Bool
  | [] => true
  | s :: _ => s.separates

/-- Whether a line starts here with the mark that repeats a character three times. -/
def isMark (c : Char) : List Spot → Bool
  | s₁ :: s₂ :: s₃ :: rest =>
    s₁.column = 0 && s₁.char = c && s₂.char = c && s₃.char = c && endsWord rest
  | _ => false

/-- Whether a line starts here with the mark of the start or the end of a document. -/
def isDocumentMark (spots : List Spot) : Bool := isMark '-' spots || isMark '.' spots

/-- The lines of spots, each with its line break. -/
def linesOf : List Spot → List (List Spot)
  | [] => []
  | s :: rest =>
    if s.isBreak then [s] :: linesOf rest
    else
      match linesOf rest with
      | [] => [[s]]
      | line :: others => (s :: line) :: others

end PipelineLineage.Yaml
