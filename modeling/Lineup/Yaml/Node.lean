import Lineup.Encoding
import Lineup.Yaml.Token

/-!
# Nodes of a YAML text

The first document of a text as a tree of scalars, sequences and mappings. A reference
to an anchor holds the node that the anchor names.
-/

namespace Lineup

namespace Yaml

/-- A node of a document. -/
inductive Node where
  /-- A scalar, with the tag it was given, which is empty if it was given none. -/
  | scalar (tag : Text) (isPlain : Bool) (value : Text)
  | sequence (items : List Node)
  | mapping (pairs : List (Node × Node))
  /-- A reference to an anchor. A node has none of the nodes that it is inside of. -/
  | reference (name : Text) (target : Option Node)

namespace Node

/-- What is read while a document is put together: the tokens left, whether they go on
to the end of the text, the anchors so far, and the meaning of the handles of tags. -/
structure Source where
  tokens : List Token
  isComplete : Bool
  anchors : List (Text × Option Node) := []
  handles : List (List Char × List Char) := []

/-- A step that reads a part of a document. It has no result when the part is
malformed. -/
abbrev Read := StateT Source Option

/-- The next token, `none` at the end of the text. Reading fails where no token could be
read. -/
def peek : Read (Option Token) := do
  let source ← get
  match source.tokens with
  | token :: _ => return some token
  | [] => if source.isComplete then return none else failure

/-- Passes over the next token. -/
def advance : Read Unit :=
  modify fun source => { source with tokens := source.tokens.drop 1 }

/-- Whether the next token is one of the given ones. -/
def isNext (tokens : List Token) : Read Bool := do
  match ← peek with
  | some token => return tokens.contains token
  | none => return false

/-- Passes over the next token if it is the given one, and tells whether it was. -/
def accept (token : Token) : Read Bool := do
  if ← isNext [token] then
    advance
    return true
  else return false

/-- The scalar that stands where nothing is written. -/
def empty : Node :=
  scalar [] true []

/-- What the tags of the standard start with. -/
def standardStart : List Char :=
  "tag:yaml.org,2002:".toList

/-- The short form of a tag, in which two exclamation marks stand for the standard. -/
def shortTag (tag : List Char) : List Char :=
  if standardStart.isPrefixOf tag then '!' :: '!' :: tag.drop standardStart.length
  else tag

/-- The short form of a tag that is written with a handle. -/
def resolveTag (handle suffix : List Char) : Read Text := do
  let source ← get
  let known := source.handles ++ [(['!'], ['!']), (['!', '!'], standardStart)]
  match if handle.isEmpty then some [] else known.lookup handle with
  | some start =>
      let tag := shortTag (start ++ suffix)
      return Text.ofChars (if tag == ['!'] then [] else tag)
  | none => failure

/-- Reads an anchor and a tag in front of a node, in either order. -/
def properties : Read (Option Text × Option Text) := do
  let readAnchor : Read (Option Text) := do
    match ← peek with
    | some (.anchor name) =>
        advance
        return some (Text.ofChars name)
    | _ => return none
  let readTag : Read (Option Text) := do
    match ← peek with
    | some (.tag handle suffix) =>
        advance
        return some (← resolveTag handle suffix)
    | _ => return none
  let anchor ← readAnchor
  let tag ← readTag
  let anchor ← if anchor.isNone then readAnchor else pure anchor
  return (anchor, tag)

/-- Notes the node that an anchor names. -/
def note (anchor : Option Text) (node : Option Node) : Read Unit :=
  match anchor with
  | some name =>
      modify fun source => { source with anchors := (name, node) :: source.anchors }
  | none => return ()

/-- What may stand around a node. -/
structure Context where
  /-- Whether blocks may start. -/
  allowsBlock : Bool
  /-- Whether a sequence may start without being indented. -/
  allowsBareSequence : Bool := false

/-- The tokens that end a key or value of a block. -/
def entryEnds : List Token := [.key, .value, .blockEnd]

mutual

/-- Reads a node. -/
def read : (fuel : Nat) → Context → Read Node
  | 0, _ => failure
  | fuel + 1, context => do
      match ← peek with
      | some (.reference name) =>
          advance
          let name := Text.ofChars name
          match (← get).anchors.lookup name with
          | some target => return reference name target
          | none => failure
      | _ =>
          let (anchor, tag) ← properties
          let finish (content : Read Node) : Read Node := do
            note anchor none
            let node ← content
            note anchor (some node)
            return node
          match ← peek with
          | some (.scalar isPlain text) =>
              advance
              finish (return scalar (tag.getD []) isPlain (Text.ofChars text))
          | some .flowSequenceStart =>
              advance
              finish (return sequence (← flowItems fuel true []))
          | some .flowMappingStart =>
              advance
              finish (return mapping (← flowPairs fuel true []))
          | other =>
              if context.allowsBareSequence && other == some .blockEntry then
                finish (return sequence (← bareItems fuel []))
              else if context.allowsBlock && other == some .blockSequenceStart then
                advance
                finish (return sequence (← blockItems fuel []))
              else if context.allowsBlock && other == some .blockMappingStart then
                advance
                finish (return mapping (← blockPairs fuel []))
              else if anchor.isSome || tag.isSome then
                finish (return scalar (tag.getD []) true [])
              else failure

/-- Reads a node, which is empty if one of the given tokens stands in its place. -/
def readUnless : (fuel : Nat) → List Token → Context → Read Node
  | 0, _, _ => failure
  | fuel + 1, ends, context => do
      if ← isNext ends then return empty else read fuel context

/-- Reads the items of an indented sequence, after `items`. -/
def blockItems : (fuel : Nat) → (items : List Node) → Read (List Node)
  | 0, _ => failure
  | fuel + 1, items => do
      if ← accept .blockEntry then
        let item ← readUnless fuel [.blockEntry, .blockEnd] { allowsBlock := true }
        blockItems fuel (items ++ [item])
      else if ← accept .blockEnd then return items
      else failure

/-- Reads the items of a sequence that is not indented, after `items`. -/
def bareItems : (fuel : Nat) → (items : List Node) → Read (List Node)
  | 0, _ => failure
  | fuel + 1, items => do
      if ← accept .blockEntry then
        let item ← readUnless fuel (.blockEntry :: entryEnds) { allowsBlock := true }
        bareItems fuel (items ++ [item])
      else return items

/-- Reads the pairs of an indented mapping, after `pairs`. -/
def blockPairs : (fuel : Nat) → (pairs : List (Node × Node)) → Read (List (Node × Node))
  | 0, _ => failure
  | fuel + 1, pairs => do
      let context : Context := { allowsBlock := true, allowsBareSequence := true }
      if ← accept .key then
        let key ← readUnless fuel entryEnds context
        let value ←
          if ← accept .value then readUnless fuel entryEnds context else pure empty
        blockPairs fuel (pairs ++ [(key, value)])
      else if ← accept .blockEnd then return pairs
      else failure

/-- Reads a key and its value inside brackets, where `ends` end an item. -/
def flowPair : (fuel : Nat) → (ends : List Token) → Read (Node × Node)
  | 0, _ => failure
  | fuel + 1, ends => do
      let key ← readUnless fuel (.value :: ends) { allowsBlock := false }
      if ← accept .value then
        return (key, ← readUnless fuel ends { allowsBlock := false })
      else return (key, empty)

/-- Reads the items of a sequence in brackets, after `items`. -/
def flowItems : (fuel : Nat) → (isFirst : Bool) → (items : List Node) → Read (List Node)
  | 0, _, _ => failure
  | fuel + 1, isFirst, items => do
      let ends := [Token.flowEntry, .flowSequenceEnd]
      if ← accept .flowSequenceEnd then return items
      else
        let isSeparated ← if isFirst then pure true else accept .flowEntry
        if !isSeparated then failure
        else if ← accept .key then
          let pair ← flowPair fuel ends
          flowItems fuel false (items ++ [mapping [pair]])
        else if ← accept .flowSequenceEnd then return items
        else
          let item ← read fuel { allowsBlock := false }
          flowItems fuel false (items ++ [item])

/-- Reads the pairs of a mapping in brackets, after `pairs`. -/
def flowPairs : (fuel : Nat) → (isFirst : Bool) → (pairs : List (Node × Node)) →
    Read (List (Node × Node))
  | 0, _, _ => failure
  | fuel + 1, isFirst, pairs => do
      let ends := [Token.flowEntry, .flowMappingEnd]
      if ← accept .flowMappingEnd then return pairs
      else
        let isSeparated ← if isFirst then pure true else accept .flowEntry
        if !isSeparated then failure
        else if ← accept .key then
          let pair ← flowPair fuel ends
          flowPairs fuel false (pairs ++ [pair])
        else if ← accept .flowMappingEnd then return pairs
        else
          let key ← read fuel { allowsBlock := false }
          flowPairs fuel false (pairs ++ [(key, empty)])

end

/-- Reads the directives in front of a document, and tells whether there were any. -/
def directives : (fuel : Nat) → (hasVersion : Bool) → Read Bool
  | 0, _ => failure
  | fuel + 1, hasVersion => do
      match ← peek with
      | some (.versionDirective major minor) =>
          if hasVersion || major != 1 || minor != 1 then failure
          else
            advance
            discard (directives fuel true)
            return true
      | some (.tagDirective handle start) =>
          if ((← get).handles.lookup handle).isSome then failure
          else
            advance
            modify fun source =>
              { source with handles := (handle, start) :: source.handles }
            discard (directives fuel hasVersion)
            return true
      | _ => return false

/-- Reads the first document, if there is one. -/
def document (fuel : Nat) : Read (Option Node) := do
  let isDirected ← directives fuel false
  match ← peek with
  | none => if isDirected then failure else return none
  | some .documentStart =>
      advance
      match ← peek with
      | none | some .documentStart | some .documentEnd | some (.versionDirective _ _)
      | some (.tagDirective _ _) => return some empty
      | some _ => return some (← read fuel { allowsBlock := true })
  | some _ =>
      if isDirected then failure else return some (← read fuel { allowsBlock := true })

end Node

/-- The result of reading a document. -/
inductive Document where
  /-- The text holds no document. -/
  | none
  | node (content : Node)
  /-- The text is malformed. -/
  | malformed

/-- The characters of a text in UTF-8 or UTF-16, without its byte-order mark, if it is
well formed and all of them may stand in a document. -/
def readable? (data : Text) : Option (List Char) :=
  let (text, encoding) := Encoding.decode data
  let isWellFormed :=
    match encoding with
    | .utf8 | .utf8Marked => text.isWellFormed
    | .utf16 _ => encoding.encode text == data
    | .utf32 _ => false
  if isWellFormed && text.chars.all isAllowed then some text.chars else Option.none

/-- The number of tokens that are read ahead of the one looked at. -/
def lookahead : Nat := 2

/-- The first document of a text. What follows it does not matter, unless it is
malformed within reach of the lookahead. -/
def Document.ofText (data : Text) : Document :=
  match readable? data with
  | Option.none => .malformed
  | some characters =>
      let (tokens, isComplete) := Token.ofText characters
      match (Node.document (4 * tokens.length + 8)).run { tokens, isComplete } with
      | some (some content, source) =>
          if !source.isComplete && source.tokens.length ≤ lookahead then .malformed
          else .node content
      | some (Option.none, _) => .none
      | Option.none => .malformed

end Yaml

end Lineup
