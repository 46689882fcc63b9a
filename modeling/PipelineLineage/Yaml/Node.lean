import PipelineLineage.Yaml.Token

set_option autoImplicit false

/-!
# Nodes of YAML

The tree that the tokens of a document write. A reference stands for the node that started last with
its anchor, which has to be complete: no node holds itself.
-/

namespace PipelineLineage.Yaml

inductive Node
  | scalar (tag : Option (List Char)) (isPlain : Bool) (text : List Char)
  | sequence (tag : Option (List Char)) (items : List Node)
  | mapping (tag : Option (List Char)) (entries : List (Node × Node))

def Node.empty : Node := .scalar none true []

/-- What the handles of tags stand for, each with the start of the tags that it writes. -/
abbrev Handles := List (List Char × List Char)

/-- The start of the tags that the format itself defines. -/
def standardStart : List Char := "tag:yaml.org,2002:".toList

/-- The handles that need no directive. -/
def standardHandles : Handles := [(['!'], ['!']), (['!', '!'], standardStart)]

/-- A document of which a part is read. -/
structure Remainder where
  tokens : List Token
  /-- What the handles of tags stand for. -/
  handles : Handles := standardHandles
  /-- The anchors and the numbers of their nodes, the latest first. -/
  anchors : List (List Char × Nat) := []
  /-- The nodes with anchors that are complete. -/
  nodes : List (Nat × Node) := []

namespace Remainder

def advance (r : Remainder) : Remainder := { r with tokens := r.tokens.drop 1 }

/-- Whether one of the tokens comes next. -/
def startsWith (r : Remainder) (tokens : List Token) : Bool :=
  r.tokens.head?.any fun token => tokens.contains token

/-- The whole text of a tag. -/
def expand? (r : Remainder) (tag : TagText) : Option (List Char) :=
  if tag.handle.isEmpty then some tag.suffix
  else (r.handles.lookup tag.handle).map fun start => start ++ tag.suffix

/-- Notes that a node with an anchor starts, if it has one. -/
def start (r : Remainder) (anchor : Option (List Char)) : Remainder :=
  match anchor with
  | none => r
  | some name => { r with anchors := (name, r.anchors.length) :: r.anchors }

/-- Notes that the node with a number is complete. -/
def complete (r : Remainder) (anchor : Option (List Char)) (number : Nat) (node : Node) :
    Remainder :=
  if anchor.isNone then r else { r with nodes := (number, node) :: r.nodes }

/-- The node of a reference. -/
def resolve? (r : Remainder) (name : List Char) : Option Node :=
  (r.anchors.lookup name).bind fun number => r.nodes.lookup number

end Remainder

/-- What may stand before the content of a node. -/
structure Properties where
  anchor : Option (List Char) := none
  tag : Option TagText := none

def Properties.isEmpty (p : Properties) : Bool := p.anchor.isNone && p.tag.isNone

/-- The properties that come next, at most one of each kind, and what follows them. -/
def properties : List Token → Properties × List Token
  | .anchor name :: .tag text :: rest => (⟨some name, some text⟩, rest)
  | .tag text :: .anchor name :: rest => (⟨some name, some text⟩, rest)
  | .anchor name :: rest => (⟨some name, none⟩, rest)
  | .tag text :: rest => (⟨none, some text⟩, rest)
  | rest => ({}, rest)

/-- Where a node stands: in a document or an item that indentation shows, in an entry of a mapping
that indentation shows, or in brackets. -/
inductive Setting
  | block
  | entry
  | flow
  deriving DecidableEq

/-- What is read of a document, and the remainder of it. -/
abbrev Read (α : Type) := Option (α × Remainder)

/-- Goes on reading a list. -/
def Read.cons {α : Type} (first : α) : Read (List α) → Read (List α) :=
  Option.map fun (others, r) => (first :: others, r)

mutual

/-- The node that comes next; the fuel is more than three times the number of tokens. -/
def node? : Nat → Setting → Remainder → Read Node
  | 0, _, _ => none
  | fuel + 1, setting, r =>
    match r.tokens with
    | .reference name :: _ => (r.resolve? name).map fun node => (node, r.advance)
    | tokens =>
      let (found, rest) := properties tokens
      match found.tag.mapM r.expand? with
      | none => none
      | some tag =>
        let inner := { r with tokens := rest }.start found.anchor
        (content? fuel setting found.isEmpty tag inner).map fun (node, after) =>
          (node, after.complete found.anchor r.anchors.length node)

/-- The content of a node with a tag. It may be missing where the node has properties. -/
def content? : Nat → Setting → Bool → Option (List Char) → Remainder → Read Node
  | 0, _, _, _, _ => none
  | fuel + 1, setting, isBare, tag, r =>
    let sequence := Option.map fun (found : List Node × Remainder) =>
      (Node.sequence tag found.1, found.2)
    let mapping := Option.map fun (found : List (Node × Node) × Remainder) =>
      (Node.mapping tag found.1, found.2)
    let missing := if isBare then none else some (.scalar tag true [], r)
    match r.tokens with
    | .scalar isPlain text :: _ => some (.scalar tag isPlain text, r.advance)
    | .flowSequenceStart :: _ => sequence (flowItems? fuel true r.advance)
    | .flowMappingStart :: _ => mapping (flowEntries? fuel true r.advance)
    | .sequenceStart :: _ =>
      if setting = .flow then missing else sequence (blockItems? fuel r.advance)
    | .mappingStart :: _ =>
      if setting = .flow then missing else mapping (blockEntries? fuel r.advance)
    | .item :: _ => if setting = .entry then sequence (entryItems? fuel r) else missing
    | _ => missing

def blockItems? : Nat → Remainder → Read (List Node)
  | 0, _ => none
  | fuel + 1, r =>
    match r.tokens with
    | .item :: _ =>
      let r := r.advance
      let first :=
        if r.startsWith [.item, .blockEnd] then some (.empty, r) else node? fuel .block r
      match first with
      | some (first, r) => .cons first (blockItems? fuel r)
      | none => none
    | .blockEnd :: _ => some ([], r.advance)
    | _ => none

/-- The items of a sequence that stands as deep as the key before it. -/
def entryItems? : Nat → Remainder → Read (List Node)
  | 0, _ => none
  | fuel + 1, r =>
    match r.tokens with
    | .item :: _ =>
      let r := r.advance
      let first :=
        if r.startsWith [.item, .key, .value, .blockEnd] then some (.empty, r)
        else node? fuel .block r
      match first with
      | some (first, r) => .cons first (entryItems? fuel r)
      | none => none
    | _ => some ([], r)

def blockEntries? : Nat → Remainder → Read (List (Node × Node))
  | 0, _ => none
  | fuel + 1, r =>
    let part (r : Remainder) : Read Node :=
      if r.startsWith [.key, .value, .blockEnd] then some (.empty, r) else node? fuel .entry r
    match r.tokens with
    | .key :: _ =>
      match part r.advance with
      | some (key, r) =>
        match if r.startsWith [.value] then part r.advance else some (.empty, r) with
        | some (value, r) => .cons (key, value) (blockEntries? fuel r)
        | none => none
      | none => none
    | .blockEnd :: _ => some ([], r.advance)
    | _ => none

/-- The items of a sequence in brackets. An item that is a single entry needs no brackets of its
own. -/
def flowItems? : Nat → Bool → Remainder → Read (List Node)
  | 0, _, _ => none
  | fuel + 1, isFirst, r =>
    if r.startsWith [.flowSequenceEnd] then some ([], r.advance)
    else if !isFirst && !r.startsWith [.comma] then none
    else
      let r := if isFirst then r else r.advance
      if r.startsWith [.flowSequenceEnd] then some ([], r.advance)
      else
        let first := if r.startsWith [.key] then flowPair? fuel r.advance else node? fuel .flow r
        match first with
        | some (first, r) => .cons first (flowItems? fuel false r)
        | none => none

/-- The entry that is an item of a sequence in brackets. Where its key is missing the token after it
is passed over. -/
def flowPair? : Nat → Remainder → Read Node
  | 0, _ => none
  | fuel + 1, r =>
    let key :=
      if r.startsWith [.value, .comma, .flowSequenceEnd] then some (.empty, r.advance)
      else node? fuel .flow r
    match key with
    | some (key, r) =>
      (flowValue? fuel .flowSequenceEnd r).map fun (value, r) => (.mapping none [(key, value)], r)
    | none => none

/-- The value after a key in brackets. -/
def flowValue? : Nat → Token → Remainder → Read Node
  | 0, _, _ => none
  | fuel + 1, closing, r =>
    if !r.startsWith [.value] then some (.empty, r)
    else
      let r := r.advance
      if r.startsWith [.comma, closing] then some (.empty, r) else node? fuel .flow r

def flowEntries? : Nat → Bool → Remainder → Read (List (Node × Node))
  | 0, _, _ => none
  | fuel + 1, isFirst, r =>
    if r.startsWith [.flowMappingEnd] then some ([], r.advance)
    else if !isFirst && !r.startsWith [.comma] then none
    else
      let r := if isFirst then r else r.advance
      if r.startsWith [.flowMappingEnd] then some ([], r.advance)
      else if r.startsWith [.key] then
        let r := r.advance
        let key :=
          if r.startsWith [.value, .comma, .flowMappingEnd] then some (.empty, r)
          else node? fuel .flow r
        match key with
        | some (key, r) =>
          match flowValue? fuel .flowMappingEnd r with
          | some (value, r) => .cons (key, value) (flowEntries? fuel false r)
          | none => none
        | none => none
      else
        match node? fuel .flow r with
        | some (key, r) => .cons (key, .empty) (flowEntries? fuel false r)
        | none => none

end

/-- What the directives before a document say, and what follows them. The version is told once and
is one of the first; no handle is told twice. -/
def directives (versioned : Bool) (handles : Handles) : List Token → Option (Handles × List Token)
  | .directive (.version major minor) :: rest =>
    if versioned || major ≠ 1 || !(minor = 1 || minor = 2) then none
    else directives true handles rest
  | .directive (.handle name start) :: rest =>
    if (handles.lookup name).isSome then none
    else directives versioned ((name, start) :: handles) rest
  | rest => some (handles, rest)

/-- Whether a token stands between documents. -/
def Token.isBoundary : Token → Bool
  | .directive _ => true
  | .documentStart => true
  | .documentEnd => true
  | _ => false

/-- The node of a document whose first token follows the mark of its start. -/
def documentNode? (handles : Handles) (tokens : List Token) : Read Node :=
  let r : Remainder := { tokens, handles := handles ++ standardHandles }
  if tokens.isEmpty || tokens.head?.any Token.isBoundary then some (.empty, r)
  else node? (3 * tokens.length + 3) .block r

/-- The node of tokens that hold one document at most. -/
def Node.ofTokens? (tokens : List Token) : Option Node :=
  let found :=
    if tokens.isEmpty then some (Node.empty, { tokens })
    else if tokens.head?.any Token.isBoundary then
      match directives false [] tokens with
      | some (handles, .documentStart :: rest) => documentNode? handles rest
      | _ => none
    else documentNode? [] tokens
  match found with
  | some (node, r) => if r.tokens.all (· = .documentEnd) then some node else none
  | none => none

end PipelineLineage.Yaml
