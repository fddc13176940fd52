import Lineup.Syntax.Span
import Lineup.Token.Lexer

/-!
# Parsing

Building the tree of a source text. Parsing never fails: text that is not understood
becomes nodes of kind `other`, so that printing the tree gives back the source text.

The parser reads one item at a time. Declarations whose body has started are kept on a
stack until their closing brace, or the end of the file, is reached. Nodes are numbered
in the order in which they are finished, after the compilation unit, whose number is 0.
-/

namespace Lineup

namespace Parser

/-- What has been read of a body. -/
inductive Body where
  /-- The items of a file or a namespace; a file or a namespace without braces ends with
  the source text only. -/
  | items (braced : Bool) (segments : List Segment)
  /-- The members of a type. -/
  | members (nodes : List Node)

/-- Whether the body ends at a closing brace. -/
def Body.isBraced : Body → Bool
  | .items braced _ => braced
  | .members _ => true

/-- The body as segments of its node. -/
def Body.segments : Body → List Segment
  | .items _ segments => segments
  | .members nodes => [.list .members nodes]

/-- The segments with a using directive added. Directives that follow each other share a
list. -/
def addDirective (node : Node) : List Segment → List Segment
  | [] => [.list .directives [node]]
  | [.list .directives items] => [.list .directives (items ++ [node])]
  | segment :: segments => segment :: addDirective node segments

/-- The body with a node added at its end. -/
def Body.add (node : Node) : Body → Body
  | .members nodes => .members (nodes ++ [node])
  | .items braced segments =>
      if node.kind = .usingDirective then .items braced (addDirective node segments)
      else .items braced (segments ++ [.node node])

/-- A declaration whose body is being read. -/
structure Frame where
  kind : NodeKind
  leading : Text
  head : List Token
  /-- The source text from the start of the declaration to the start of its body. -/
  header : Text
  /-- What had been read of the surrounding body. -/
  outer : Body

/-- The state of the parser between two items. -/
structure Progress where
  /-- The number of the next finished node. -/
  next : Nat
  /-- What has been read of the innermost body. -/
  body : Body
  /-- The declarations around it, the innermost first. -/
  frames : List Frame

/-- Add a finished node to the innermost body. -/
def Progress.add (progress : Progress) (kind : NodeKind) (leading : Text)
    (head : List Token) (segments : List Segment) (trailing : Text) : Progress :=
  let node := Node.mk { id := progress.next, kind, leading, trailing, head } segments
  { progress with next := progress.next + 1, body := progress.body.add node }

/-- Add a node without a body, made of the first `width` tokens, and the trivia after
it. -/
def Progress.addLeaf (progress : Progress) (kind : NodeKind) (leading : Text)
    (head : List Token) (width : Nat) (tokens : List Token) : Progress × List Token :=
  let after := tokens.drop width
  let trailing := Span.trailing after
  (progress.add kind leading head [.text (Token.joined (tokens.take width))]
      (Token.joined (after.take trailing)),
    after.drop trailing)

/-- Add an item whose tokens all belong to its head. -/
def Progress.addItem (progress : Progress) (kind : NodeKind) (leading : Text)
    (width : Nat) (tokens : List Token) : Progress × List Token :=
  progress.addLeaf kind leading (Token.significant (tokens.take width)) width tokens

/-- Start reading a body after the first `width` tokens and the trivia that follows
them. -/
def Progress.enter (progress : Progress) (kind : NodeKind) (leading : Text)
    (head : List Token) (body : Body) (width : Nat) (tokens : List Token) :
    Progress × List Token :=
  let after := tokens.drop width
  let trailing := Span.trailing after
  let header := Token.joined (tokens.take width) ++ Token.joined (after.take trailing)
  ({ progress with
      body, frames := { kind, leading, head, header, outer := progress.body }
        :: progress.frames },
    after.drop trailing)

/-- Finish the innermost declaration, whose body ends with the given text. -/
def Progress.leave (progress : Progress) (closing trailing : Text) : Progress :=
  match progress.frames with
  | [] => progress
  | frame :: frames =>
      let segments := .text frame.header :: progress.body.segments ++ [.text closing]
      { progress with body := frame.outer, frames }.add
        frame.kind frame.leading frame.head segments trailing

/-- Read a namespace whose keyword is the first token. -/
def Progress.readNamespace (progress : Progress) (leading : Text) (keyword : Token)
    (rest : List Token) : Progress × List Token :=
  let width := Span.namespaceHeader rest + 1
  let tokens := keyword :: rest
  let head := Token.significant (tokens.take width)
  match tokens[width]? with
  | none => progress.addLeaf .namespaceDeclaration leading head width tokens
  | some token =>
      if token.is openBrace then
        progress.enter .namespaceDeclaration leading head (.items true [])
          (width + 1) tokens
      else if token.is ";" then
        progress.enter .namespaceDeclaration leading head (.items false [])
          (width + 1) tokens
      else progress.addLeaf .namespaceDeclaration leading head width tokens

/-- Read the declaration of a type. The body of an enum is kept as text. -/
def Progress.readType (progress : Progress) (keyword : TypeKeyword) (name : Text)
    (leading : Text) (first : Token) (rest : List Token) : Progress × List Token :=
  let kind := NodeKind.typeDeclaration keyword name
  let width := Span.typeHeader (Span.depthAfter 0 first) rest + 1
  let tokens := first :: rest
  let head := Token.significant (tokens.take width)
  match tokens[width]? with
  | none => progress.addLeaf kind leading head width tokens
  | some token =>
      if token.is openBrace then
        if keyword = .enumType then
          let width := width + Span.nested openBrace closeBrace 0 (tokens.drop width)
          let width := width + Span.semicolon (tokens.drop width)
          progress.addLeaf kind leading head width tokens
        else progress.enter kind leading head (.members []) (width + 1) tokens
      else if token.is ";" then progress.addLeaf kind leading head (width + 1) tokens
      else progress.addLeaf kind leading head width tokens

/-- Read a closing brace, a semicolon after it and the trivia that follows. -/
def Progress.readClosing (progress : Progress) (leading : Text) (brace : Token)
    (rest : List Token) : Progress × List Token :=
  let width := Span.semicolon rest
  let after := rest.drop width
  let trailing := Span.trailing after
  (progress.leave (leading ++ brace.text ++ Token.joined (rest.take width))
      (Token.joined (after.take trailing)),
    after.drop trailing)

/-- Read the item that starts with the given significant token. The tokens that remain
are given back. -/
def Progress.read (progress : Progress) (leading : Text) (first : Token)
    (rest : List Token) :
    Progress × List Token :=
  let tokens := first :: rest
  let ahead := Token.significant tokens
  if progress.body.isBraced && first.is closeBrace then
    progress.readClosing leading first rest
  else
    match progress.body with
    | .members _ =>
        match Span.declaredType? ahead with
        | some (keyword, name) => progress.readType keyword name leading first rest
        | none => progress.addItem .member leading (Span.item tokens) tokens
    | .items _ _ =>
        if Span.isUsingDirective ahead then
          progress.addItem .usingDirective leading (Span.item tokens) tokens
        else if first.is "namespace" then progress.readNamespace leading first rest
        else if Span.isGlobalAttribute ahead then
          progress.addItem .other leading (Span.nested "[" "]" 0 tokens) tokens
        else
          match Span.declaredType? ahead with
          | some (keyword, name) => progress.readType keyword name leading first rest
          | none => progress.addItem .other leading (Span.item tokens) tokens

/-- Finish all open declarations at the end of the source text, given the trivia that
remains. The innermost body that needs a brace takes it. -/
def Progress.finish (next : Nat) (body : Body) (remaining : Text) : List Frame → Node
  | [] =>
      let segments := body.segments
        ++ if remaining.isEmpty then [] else [.text remaining]
      .mk { id := 0, kind := .compilationUnit, leading := [], trailing := [],
            head := [] } segments
  | frame :: frames =>
      let closing := if body.isBraced then [.text remaining] else []
      let segments := .text frame.header :: body.segments ++ closing
      let info : NodeInfo :=
        { id := next, kind := frame.kind, leading := frame.leading, trailing := [],
          head := frame.head }
      Progress.finish (next + 1) (frame.outer.add (.mk info segments))
        (if body.isBraced then [] else remaining) frames

theorem Progress.addLeaf_length (progress : Progress) (kind : NodeKind) (leading : Text)
    (head : List Token) (width : Nat) (first : Token) (rest : List Token)
    (positive : 0 < width) :
    (progress.addLeaf kind leading head width (first :: rest)).2.length
      ≤ rest.length := by
  simp only [addLeaf, List.length_drop, List.length_cons]
  omega

theorem Progress.enter_length (progress : Progress) (kind : NodeKind) (leading : Text)
    (head : List Token) (body : Body) (width : Nat) (first : Token) (rest : List Token)
    (positive : 0 < width) :
    (progress.enter kind leading head body width (first :: rest)).2.length
      ≤ rest.length := by
  simp only [enter, List.length_drop, List.length_cons]
  omega

theorem Progress.readNamespace_length (progress : Progress) (leading : Text)
    (keyword : Token) (rest : List Token) :
    (progress.readNamespace leading keyword rest).2.length ≤ rest.length := by
  simp only [readNamespace]
  repeat' split
  all_goals first
    | exact addLeaf_length _ _ _ _ _ _ _ (by omega)
    | exact enter_length _ _ _ _ _ _ _ _ (by omega)

theorem Progress.readType_length (progress : Progress) (keyword : TypeKeyword)
    (name : Text) (leading : Text) (first : Token) (rest : List Token) :
    (progress.readType keyword name leading first rest).2.length ≤ rest.length := by
  simp only [readType]
  repeat' split
  all_goals first
    | exact addLeaf_length _ _ _ _ _ _ _ (by omega)
    | exact enter_length _ _ _ _ _ _ _ _ (by omega)

/-- Reading an item uses up at least one token. -/
theorem Progress.read_length (progress : Progress) (leading : Text) (first : Token)
    (rest : List Token) :
    (progress.read leading first rest).2.length ≤ rest.length := by
  simp only [read]
  split
  · simp only [readClosing, List.length_drop]
    omega
  · repeat' split
    all_goals first
      | exact readType_length _ _ _ _ _ _
      | exact readNamespace_length _ _ _ _
      | exact addLeaf_length _ _ _ _ _ _ _ (Span.item_pos _ _)
      | exact addLeaf_length _ _ _ _ _ _ _ (Span.nested_pos _ _ _ _ _)

/-- Read all items up to the end of the source text. -/
def Progress.readAll (progress : Progress) (tokens : List Token) : Node :=
  match _ahead : tokens.dropWhile Token.isTrivia with
  | [] =>
      Progress.finish progress.next progress.body (Token.joined tokens) progress.frames
  | first :: rest =>
      let leading := Token.joined (tokens.takeWhile Token.isTrivia)
      let read := progress.read leading first rest
      read.1.readAll read.2
  termination_by tokens.length
  decreasing_by
    have used := progress.read_length (Token.joined (tokens.takeWhile Token.isTrivia))
      first rest
    have passed := (List.dropWhile_suffix (l := tokens) Token.isTrivia).length_le
    rw [_ahead] at passed
    simp only [List.length_cons] at passed
    omega

end Parser

/-- The syntax tree of a source text. -/
def Tree.parse (source : Text) : Tree :=
  let start : Parser.Progress := { next := 1, body := .items false [], frames := [] }
  { source, top := start.readAll (Token.lex source), root := 0 }

end Lineup
