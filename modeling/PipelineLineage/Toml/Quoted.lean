import PipelineLineage.Text.Digits

set_option autoImplicit false

/-!
# Quoted strings of TOML

The four forms of a string: basic and literal, on one line or on several. Basic strings have escapes;
literal ones are taken as they stand. A string on several lines drops a line break right after its
opening quotes, makes every line break a line feed, and may hold quotes, of which up to two stand
before the closing ones. A backslash at the end of a line joins it to the next text.
-/

namespace PipelineLineage.Toml

open Text

/-- A character that may stand unescaped in every string, apart from its quotes. -/
def isPlain (c : Char) : Bool :=
  c = '\t' || (0x20 ≤ c.toNat && c.toNat ≠ 0x7F)

def simpleEscape? : Char → Option Char
  | 'b' => some '\x08'
  | 't' => some '\t'
  | 'n' => some '\n'
  | 'f' => some '\x0c'
  | 'r' => some '\r'
  | '"' => some '"'
  | '\\' => some '\\'
  | _ => none

/-- The character with a code point that is not a surrogate. -/
def scalarChar? (n : Nat) : Option Char :=
  if n.isValidChar then some (Char.ofNat n) else none

/-- Puts a character in front of what a string goes on with. -/
def prepend (c : Char) : Option (List Char × List Char) → Option (List Char × List Char) :=
  Option.map fun (text, rest) => (c :: text, rest)

/-- The character of an escape after its backslash, with the number of characters it takes. -/
def escape? : List Char → Option (Char × Nat)
  | 'u' :: a :: b :: c :: d :: _ =>
    ((numeralValue? 16 [a, b, c, d]).bind scalarChar?).map (·, 5)
  | 'U' :: a :: b :: c :: d :: e :: f :: g :: h :: _ =>
    ((numeralValue? 16 [a, b, c, d, e, f, g, h]).bind scalarChar?).map (·, 9)
  | c :: _ => (simpleEscape? c).map (·, 1)
  | [] => none

/-- The text of a basic string after its opening quote, and what follows the closing one. The first
argument counts the characters of an escape still to be passed over. -/
def basic : Nat → List Char → Option (List Char × List Char)
  | _, [] => none
  | skip + 1, _ :: rest => basic skip rest
  | 0, '"' :: rest => some ([], rest)
  | 0, '\\' :: rest =>
    match escape? rest with
    | some (c, size) => prepend c (basic size rest)
    | none => none
  | 0, c :: rest => if isPlain c then prepend c (basic 0 rest) else none

/-- Whether a backslash stands at the end of its line. -/
def endsLine (cs : List Char) : Bool :=
  match cs.dropWhile fun c => c = ' ' || c = '\t' with
  | '\n' :: _ => true
  | '\r' :: '\n' :: _ => true
  | _ => false

/-- How reading goes on in a string on several lines: plainly, after the given number of characters
of an escape, or after the blanks and line breaks that follow a joined line. -/
inductive Progress
  | plain
  | escape (left : Nat)
  | joining

/-- The text of a basic string on several lines after its opening quotes. -/
def basicLines : Progress → List Char → Option (List Char × List Char)
  | .escape (left + 1), _ :: rest => basicLines (.escape left) rest
  | .joining, ' ' :: rest => basicLines .joining rest
  | .joining, '\t' :: rest => basicLines .joining rest
  | .joining, '\n' :: rest => basicLines .joining rest
  | .joining, '\r' :: '\n' :: rest => basicLines .joining rest
  | _, '"' :: '"' :: '"' :: '"' :: '"' :: rest => some (['"', '"'], rest)
  | _, '"' :: '"' :: '"' :: '"' :: rest => some (['"'], rest)
  | _, '"' :: '"' :: '"' :: rest => some ([], rest)
  | _, '\\' :: rest =>
    if endsLine rest then basicLines .joining rest
    else
      match escape? rest with
      | some (c, size) => prepend c (basicLines (.escape size) rest)
      | none => none
  | _, '\n' :: rest => prepend '\n' (basicLines .plain rest)
  | _, '\r' :: '\n' :: rest => prepend '\n' (basicLines .plain rest)
  | _, c :: rest => if isPlain c then prepend c (basicLines .plain rest) else none
  | _, [] => none

/-- The text of a literal string after its opening quote. -/
def literal : List Char → Option (List Char × List Char)
  | [] => none
  | '\'' :: rest => some ([], rest)
  | c :: rest => if isPlain c then prepend c (literal rest) else none

/-- The text of a literal string on several lines after its opening quotes. -/
def literalLines : List Char → Option (List Char × List Char)
  | '\'' :: '\'' :: '\'' :: '\'' :: '\'' :: rest => some (['\'', '\''], rest)
  | '\'' :: '\'' :: '\'' :: '\'' :: rest => some (['\''], rest)
  | '\'' :: '\'' :: '\'' :: rest => some ([], rest)
  | '\n' :: rest => prepend '\n' (literalLines rest)
  | '\r' :: '\n' :: rest => prepend '\n' (literalLines rest)
  | c :: rest => if isPlain c then prepend c (literalLines rest) else none
  | [] => none

/-- A text without the line break it may start with. -/
def dropLineBreak : List Char → List Char
  | '\n' :: rest => rest
  | '\r' :: '\n' :: rest => rest
  | rest => rest

/-- The text of a string of one line, and what follows it. -/
def quotedLine? : List Char → Option (List Char × List Char)
  | '"' :: rest => basic 0 rest
  | '\'' :: rest => literal rest
  | _ => none

/-- The text of a string of any form, and what follows it. -/
def quoted? : List Char → Option (List Char × List Char)
  | '"' :: '"' :: '"' :: rest => basicLines .plain (dropLineBreak rest)
  | '\'' :: '\'' :: '\'' :: rest => literalLines (dropLineBreak rest)
  | cs => quotedLine? cs

end PipelineLineage.Toml
