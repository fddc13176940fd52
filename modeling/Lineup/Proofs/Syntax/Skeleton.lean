import Lineup.Proofs.Keys
import Lineup.Proofs.Rearrangement
import Lineup.Proofs.Syntax.Gist

/-!
# What trivia leaves alone

The skeleton of a tree is what is left of it without trivia, texts and the places of
tokens. Two texts with the same significant tokens are read in step: after every item
the parser has built the same skeletons and has the same significant tokens ahead. So
trivia decides neither which nodes there are and how they are numbered nor what is known
of them.
-/

namespace Lineup

open Token (bare gist)

/-- What the skeleton keeps of what a node carries. -/
def NodeInfo.bare (info : NodeInfo) : NodeInfo :=
  { info with leading := [], trailing := [], head := info.head.map Token.bare }

mutual

/-- The node without trivia, texts and the places of tokens. -/
def Node.skeleton : Node → Node
  | .mk info segments => .mk info.bare (Segment.skeletonAll segments)

def Segment.skeleton : Segment → Segment
  | .text _ => .text []
  | .node child => .node child.skeleton
  | .list kind items => .list kind (Node.skeletonAll items)

def Segment.skeletonAll : List Segment → List Segment
  | [] => []
  | segment :: segments => segment.skeleton :: Segment.skeletonAll segments

def Node.skeletonAll : List Node → List Node
  | [] => []
  | node :: nodes => node.skeleton :: Node.skeletonAll nodes

end

theorem Segment.skeletonAll_eq (segments : List Segment) :
    Segment.skeletonAll segments = segments.map Segment.skeleton := by
  induction segments with
  | nil => simp [Segment.skeletonAll]
  | cons segment segments ih => simp [Segment.skeletonAll, ih]

theorem Node.skeletonAll_eq (nodes : List Node) :
    Node.skeletonAll nodes = nodes.map Node.skeleton := by
  induction nodes with
  | nil => simp [Node.skeletonAll]
  | cons node nodes ih => simp [Node.skeletonAll, ih]

@[simp] theorem Node.skeleton_mk (info : NodeInfo) (segments : List Segment) :
    (Node.mk info segments).skeleton
      = .mk info.bare (segments.map Segment.skeleton) := by
  rw [Node.skeleton, Segment.skeletonAll_eq]

@[simp] theorem Segment.skeleton_text (content : Text) :
    (Segment.text content).skeleton = .text [] := by
  rw [Segment.skeleton]

@[simp] theorem Segment.skeleton_node (child : Node) :
    (Segment.node child).skeleton = .node child.skeleton := by
  rw [Segment.skeleton]

@[simp] theorem Segment.skeleton_list (kind : ListKind) (items : List Node) :
    (Segment.list kind items).skeleton = .list kind (items.map Node.skeleton) := by
  rw [Segment.skeleton, Node.skeletonAll_eq]

@[simp] theorem Node.info_skeleton (node : Node) :
    node.skeleton.info = node.info.bare := by
  cases node with
  | mk info segments => rw [Node.skeleton_mk, Node.info, Node.info]

@[simp] theorem Node.segments_skeleton (node : Node) :
    node.skeleton.segments = node.segments.map Segment.skeleton := by
  cases node with
  | mk info segments => rw [Node.skeleton_mk, Node.segments, Node.segments]

@[simp] theorem Node.id_skeleton (node : Node) : node.skeleton.id = node.id := by
  rw [Node.id, Node.info_skeleton, Node.id, NodeInfo.bare]

@[simp] theorem Node.kind_skeleton (node : Node) : node.skeleton.kind = node.kind := by
  rw [Node.kind, Node.info_skeleton, Node.kind, NodeInfo.bare]

/-- Whether the segment holds text only. -/
def Segment.isText : Segment → Bool
  | .text _ => true
  | .node _ => false
  | .list _ _ => false

@[simp] theorem Segment.isText_skeleton (segment : Segment) :
    segment.skeleton.isText = segment.isText := by
  cases segment <;> simp [Segment.isText]

/-- The segments of a node that hold other nodes. -/
def Node.parts (node : Node) : List Segment :=
  node.segments.filter fun segment => !segment.isText

theorem Node.parts_skeleton (node : Node) :
    node.skeleton.parts = node.parts.map Segment.skeleton := by
  rw [Node.parts, Node.segments_skeleton, List.filter_map, Node.parts]
  simp [Function.comp_def]

namespace Parser

/-- The body without trivia, texts and the places of tokens. -/
def Body.skeleton : Body → Body
  | .items braced segments => .items braced (segments.map Segment.skeleton)
  | .members nodes => .members (nodes.map Node.skeleton)

def Frame.skeleton (frame : Frame) : Frame :=
  { kind := frame.kind, leading := [], head := frame.head.map Token.bare, header := [],
    outer := frame.outer.skeleton }

def Progress.skeleton (progress : Progress) : Progress :=
  { next := progress.next, body := progress.body.skeleton,
    frames := progress.frames.map Frame.skeleton }

@[simp] theorem Body.segments_skeleton (body : Body) :
    body.skeleton.segments = body.segments.map Segment.skeleton := by
  cases body with
  | items braced segments => rfl
  | members nodes => simp [Body.skeleton, Body.segments]

@[simp] theorem Body.scope_skeleton (body : Body) :
    body.skeleton.scope = body.scope := by
  cases body <;> rfl

@[simp] theorem Body.isBraced_skeleton (body : Body) :
    body.skeleton.isBraced = body.isBraced := by
  cases body <;> rfl

theorem skeleton_addDirective (node : Node) (segments : List Segment) :
    (addDirective node segments).map Segment.skeleton
      = addDirective node.skeleton (segments.map Segment.skeleton) := by
  fun_induction addDirective node segments with
  | case1 => simp [addDirective]
  | case2 items => simp [addDirective]
  | case3 segment segments other ih =>
      rw [List.map_cons, ih, List.map_cons, addDirective]
      intro items same empty
      cases segment with
      | text content => simp at same
      | node child => simp at same
      | list kind old =>
          rw [Segment.skeleton_list, Segment.list.injEq] at same
          rw [List.map_eq_nil_iff] at empty
          exact other old (by rw [same.1]) empty

theorem Body.skeleton_add (body : Body) (node : Node) :
    (body.add node).skeleton = body.skeleton.add node.skeleton := by
  cases body with
  | members nodes => simp [Body.add, Body.skeleton]
  | items braced segments =>
      by_cases directive : node.kind = .usingDirective
      · simp [Body.add, Body.skeleton, directive, skeleton_addDirective]
      · simp [Body.add, Body.skeleton, directive]

namespace Progress

theorem skeleton_add (progress : Progress) (kind : NodeKind) (leading : Text)
    (head : List Token) (segments : List Segment) (trailing : Text) :
    (progress.add kind leading head segments trailing).skeleton
      = progress.skeleton.add kind [] (head.map bare) (segments.map Segment.skeleton)
        [] := by
  simp only [add, skeleton, Body.skeleton_add, Node.skeleton_mk, NodeInfo.bare]

theorem skeleton_leave (progress : Progress) (closing trailing : Text) :
    (progress.leave closing trailing).skeleton = progress.skeleton.leave [] [] := by
  obtain ⟨next, body, frames⟩ := progress
  cases frames with
  | nil => rfl
  | cons frame frames =>
      simp only [leave, skeleton_add]
      simp [skeleton, Frame.skeleton]

theorem skeleton_leaf (progress : Progress) (leading : Text) (tokens : List Token)
    (kind : NodeKind) (head : List Token) (width : Nat) :
    (progress.take leading tokens (.leaf kind head width)).1.skeleton
      = progress.skeleton.add kind [] (head.map bare) [.text []] [] := by
  simp [take, addLeaf, skeleton_add]

theorem skeleton_block (progress : Progress) (leading : Text) (tokens : List Token)
    (kind : NodeKind) (head : List Token) (scope : Scope) (width : Nat) :
    (progress.take leading tokens (.block kind head scope width)).1.skeleton
      = { next := progress.skeleton.next, body := scope.start,
          frames := { kind, leading := [], head := head.map bare, header := [],
                      outer := progress.skeleton.body }
                        :: progress.skeleton.frames } := by
  have start : scope.start.skeleton = scope.start := by cases scope <;> rfl
  simp [take, enter, skeleton, Frame.skeleton, start]

end Progress

/-- Two states of the parser, each with the tokens that remain, that differ in trivia
only. -/
structure Abreast (left right : Progress × List Token) : Prop where
  built : left.1.skeleton = right.1.skeleton
  ahead : gist left.2 = gist right.2

namespace Abreast

variable {progress progress' : Progress} {first first' : Token}
  {rest rest' : List Token}

theorem take (built : progress.skeleton = progress'.skeleton) (leading leading' : Text)
    {tokens tokens' : List Token} {item item' : Item}
    (alike : Item.Alike tokens tokens' item item') :
    Abreast (progress.take leading tokens item)
      (progress'.take leading' tokens' item') := by
  cases alike with
  | leaf heads own rest =>
      constructor
      · rw [Progress.skeleton_leaf, Progress.skeleton_leaf, built, heads]
      · rwa [Progress.take, Progress.take, Progress.addLeaf, Progress.addLeaf,
          Span.gist_trailing, Span.gist_trailing]
  | block heads own rest =>
      constructor
      · rw [Progress.skeleton_block, Progress.skeleton_block, built, heads]
      · rwa [Progress.take, Progress.take, Progress.enter, Progress.enter,
          Span.gist_trailing, Span.gist_trailing]

theorem close (built : progress.skeleton = progress'.skeleton) (leading leading' : Text)
    (ahead : gist rest = gist rest') :
    Abreast (progress.readClosing leading first rest)
      (progress'.readClosing leading' first' rest') := by
  constructor
  · rw [Progress.readClosing, Progress.readClosing, Progress.skeleton_leave,
      Progress.skeleton_leave, built]
  · rw [Progress.readClosing, Progress.readClosing, Span.gist_trailing,
      Span.gist_trailing]
    exact (Item.gist_semicolon ahead).2

/-- The parser reads the next item in step. -/
theorem read (built : progress.skeleton = progress'.skeleton) (leading leading' : Text)
    (solid : first.isTrivia = false) (solid' : first'.isTrivia = false)
    (ahead : gist (first :: rest) = gist (first' :: rest')) :
    Abreast (progress.read leading first rest)
      (progress'.read leading' first' rest') := by
  have alike := Item.alike_next progress.body.scope solid solid' ahead
  rw [Token.gist_cons solid, Token.gist_cons solid', List.cons.injEq] at ahead
  have scope : progress.body.scope = progress'.body.scope := by
    have bodies := congrArg (fun progress => progress.body.scope) built
    simpa [Progress.skeleton] using bodies
  have closing : first.is closeBrace = first'.is closeBrace := by
    rw [← Token.is_bare, ahead.1, Token.is_bare]
  rw [Progress.read_eq, Progress.read_eq, ← scope, ← closing]
  split
  · exact close built _ _ ahead.2
  · exact take built _ _ alike

end Abreast

theorem parts_finish (next : Nat) (body : Body) (remaining : Text)
    (frames : List Frame) :
    (Progress.finish next body remaining frames).parts.map Segment.skeleton
      = (Progress.finish next body.skeleton [] (frames.map Frame.skeleton)).parts := by
  induction frames generalizing next body remaining with
  | nil =>
      have left (remaining : Text) :
          (if remaining.isEmpty then [] else [Segment.text remaining]).filter
          (fun segment => !segment.isText) = [] := by
        split <;> rfl
      rw [List.map_nil, Progress.finish, Progress.finish, Node.parts, Node.parts,
        Node.segments, Node.segments, List.filter_append, List.filter_append, left,
        left, List.append_nil, List.append_nil, Body.segments_skeleton, List.filter_map]
      simp [Function.comp_def]
  | cons frame frames ih =>
      rw [Progress.finish, ih, List.map_cons, Progress.finish, Body.skeleton_add,
        Node.skeleton_mk]
      cases braced : body.isBraced with
      | true => simp [Frame.skeleton, NodeInfo.bare, braced]
      | false => simp [Frame.skeleton, NodeInfo.bare, braced]

theorem Progress.readAll_trivia (progress : Progress) {tokens : List Token}
    (trivia : ∀ token ∈ tokens, token.isTrivia = true) :
    progress.readAll tokens
      = Progress.finish progress.next progress.body (Token.joined tokens)
        progress.frames := by
  have empty := List.dropWhile_eq_nil_iff.mpr trivia
  rw [Progress.readAll]
  split
  · rfl
  · rename_i found
    rw [empty] at found
    cases found

theorem Progress.readAll_cons (progress : Progress) {lead rest : List Token}
    {first : Token} (trivia : ∀ token ∈ lead, token.isTrivia = true)
    (solid : first.isTrivia = false) :
    progress.readAll (lead ++ first :: rest)
      = (progress.read (Token.joined lead) first rest).1.readAll
          (progress.read (Token.joined lead) first rest).2 := by
  have ahead : (lead ++ first :: rest).dropWhile Token.isTrivia = first :: rest := by
    rw [List.dropWhile_append_of_pos trivia,
      List.dropWhile_cons_of_neg (by simp [solid])]
  have passed : (lead ++ first :: rest).takeWhile Token.isTrivia = lead := by
    rw [List.takeWhile_append_of_pos trivia,
      List.takeWhile_cons_of_neg (by simp [solid]), List.append_nil]
  rw [Progress.readAll]
  split
  · rename_i empty
    rw [ahead] at empty
    cases empty
  · rename_i found
    rw [ahead] at found
    cases found
    rw [passed]

/-- Texts with the same significant tokens are read in step to the end. -/
theorem Abreast.readAll {progress progress' : Progress} {tokens tokens' : List Token}
    (abreast : Abreast (progress, tokens) (progress', tokens')) :
    (progress.readAll tokens).parts.map Segment.skeleton
      = (progress'.readAll tokens').parts.map Segment.skeleton := by
  fun_induction Progress.readAll progress tokens generalizing progress' tokens' with
  | case1 progress tokens empty =>
      have trivia := List.dropWhile_eq_nil_iff.mp empty
      have ahead := abreast.ahead
      rw [Token.gist_eq_nil trivia, eq_comm, Token.gist_eq_nil_iff] at ahead
      have built := abreast.built
      simp only [Progress.skeleton, Progress.mk.injEq] at built
      rw [Progress.readAll_trivia progress' ahead, parts_finish, parts_finish, built.1,
        built.2.1, built.2.2]
  | case2 progress tokens first rest present leading =>
      rename_i read ih
      have solid : first.isTrivia = false := by
        have head := List.head?_dropWhile_not Token.isTrivia tokens
        rwa [present] at head
      have parted : gist tokens = gist (first :: rest) := by
        rw [← present]
        exact (Token.gist_dropWhile tokens).symm
      obtain ⟨lead, first', rest', rfl, trivia, solid', same⟩ :=
        Token.exists_of_gist_cons
          (abreast.ahead.symm.trans (parted.trans (Token.gist_cons solid rest)))
      rw [Progress.readAll_cons progress' trivia solid']
      apply ih
      apply Abreast.read abreast.built _ _ solid solid'
      rw [Token.gist_cons solid, Token.gist_cons solid', same.1, same.2]

end Parser

/-- Two nodes that stand for the same: all that is known of them is the same, apart from
trivia and the places of tokens. -/
structure Node.Alike (node other : Node) : Prop where
  id : node.id = other.id
  kind : node.kind = other.kind
  head : node.head.map Token.face = other.head.map Token.face
  children : node.children.map Node.id = other.children.map Node.id
  lists : (node.lists.map fun list => (list.1, list.2.map Node.id))
    = other.lists.map fun list => (list.1, list.2.map Node.id)
  member : ∀ fallback, Member.classify fallback node = Member.classify fallback other

theorem Node.children_parts (node : Node) :
    node.children.map Node.skeleton
      = (node.parts.map Segment.skeleton).flatMap Segment.children := by
  rw [Node.children, Node.parts]
  induction node.segments with
  | nil => rfl
  | cons segment segments ih =>
      cases segment <;> simp [Segment.children, Segment.isText, ih]

theorem Node.lists_parts (node : Node) :
    (node.lists.map fun list => (list.1, list.2.map Node.id))
      = (node.parts.map Segment.skeleton).filterMap fun
        | .list kind items => some (kind, items.map Node.id)
        | _ => none := by
  rw [Node.lists, Node.parts]
  induction node.segments with
  | nil => rfl
  | cons segment segments ih =>
      cases segment <;> simp [Segment.isText, ih, Function.comp_def]

theorem Node.Alike.of_parts {node other : Node}
    (info : node.info.bare = other.info.bare)
    (parts : node.parts.map Segment.skeleton = other.parts.map Segment.skeleton) :
    Node.Alike node other := by
  obtain ⟨⟨id, kind, leading, trailing, head⟩, segments⟩ := node
  obtain ⟨⟨id', kind', leading', trailing', head'⟩, segments'⟩ := other
  simp only [Node.info, NodeInfo.bare, NodeInfo.mk.injEq, true_and] at info
  obtain ⟨rfl, rfl, bares⟩ := info
  have heads := Token.map_bare_iff.mp bares
  constructor
  · rfl
  · rfl
  · exact heads
  · have children := congrArg (List.flatMap Segment.children) parts
    rw [← Node.children_parts, ← Node.children_parts] at children
    simpa [Function.comp_def] using congrArg (List.map Node.id) children
  · rw [Node.lists_parts, Node.lists_parts, parts]
  · intro fallback
    exact Member.classify_congr fallback rfl heads

theorem Node.Alike.of_skeleton {node other : Node}
    (same : node.skeleton = other.skeleton) :
    Node.Alike node other := by
  apply Node.Alike.of_parts
  · rw [← Node.info_skeleton, same, Node.info_skeleton]
  · rw [← Node.parts_skeleton, same, Node.parts_skeleton]

theorem Node.children_skeleton (node : Node) :
    node.skeleton.children = node.children.map Node.skeleton := by
  rw [Node.children, Node.segments_skeleton, Node.children]
  induction node.segments with
  | nil => rfl
  | cons segment segments ih => cases segment <;> simp [Segment.children, ih]

theorem Node.family_skeleton (node : Node) :
    node.skeleton.family = node.family.map Node.skeleton := by
  induction node using Node.induction with
  | step node ih =>
      rw [Node.family_children, Node.family_children node, Node.children_skeleton,
        List.map_cons, List.flatMap_map, List.map_flatMap, List.flatMap_congr ih]

namespace Tree

/-- The structure of a file depends on its significant tokens only: texts that differ in
trivia have the same nodes, with the same numbers, kinds, heads, children and lists, and
their members are the same to the order of a list. -/
theorem alike_parse {source other : Text}
    (same : (Token.significant (Token.lex source)).map Token.face
      = (Token.significant (Token.lex other)).map Token.face) :
    List.Forall₂ Node.Alike (parse source).nodes (parse other).nodes := by
  have ahead : gist (Token.lex source) = gist (Token.lex other) :=
    Token.map_bare_iff.mpr same
  have start : Parser.Abreast
      ({ next := 1, body := .items false [], frames := [] }, Token.lex source)
      ({ next := 1, body := .items false [], frames := [] }, Token.lex other) :=
        ⟨rfl, ahead⟩
  have parts : (parse source).top.parts.map Segment.skeleton
      = (parse other).top.parts.map Segment.skeleton := start.readAll
  have top : Node.Alike (parse source).top (parse other).top := by
    apply Node.Alike.of_parts _ parts
    rw [info_top_parse, info_top_parse]
  have below : ((parse source).top.children.flatMap Node.family).map Node.skeleton
      = ((parse other).top.children.flatMap Node.family).map Node.skeleton := by
    have families (nodes : List Node) : (nodes.flatMap Node.family).map Node.skeleton
        = (nodes.map Node.skeleton).flatMap Node.family := by
      simp only [List.map_flatMap, List.flatMap_map, Node.family_skeleton]
    rw [families, families, Node.children_parts, Node.children_parts, parts]
  have family : List.Forall₂ Node.Alike (parse source).top.family
      (parse other).top.family := by
    rw [Node.family_children, Node.family_children]
    refine .cons top ?_
    rw [← List.forall₂_eq_eq_eq, List.forall₂_map_left_iff,
      List.forall₂_map_right_iff] at below
    exact below.imp fun node node' => .of_skeleton
  apply forall₂_sortBy _ family
  intro left right left' right' first second
  rw [first.id, second.id]

/-- Comments, blanks and preprocessor lines between the tokens of a type change
nothing. -/
theorem alike_parse_spaced :
    let dense := utf8 "class C\x7bint b;class D\x7b\x7d\x7d"
    let spaced := utf8
      "class C\n\x7b\n#if X\n int /*x*/ b; // b\n#endif\n class D \x7b \x7d\n\x7d\n"
    (Token.significant (Token.lex dense)).map Token.face
        = (Token.significant (Token.lex spaced)).map Token.face
      ∧ List.Forall₂ Node.Alike (parse dense).nodes (parse spaced).nodes := by
  intro dense spaced
  have same : (Token.significant (Token.lex dense)).map Token.face
      = (Token.significant (Token.lex spaced)).map Token.face := by
    decide +kernel
  exact ⟨same, alike_parse same⟩

end Tree

end Lineup
