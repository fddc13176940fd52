import Lineup.Sort
import Lineup.Token

/-!
# Syntax trees

A tree holds just enough structure to find the lists of using directives and of type
members; all other source text is kept as it stands. Printing a node gives its leading
trivia, its segments and its trailing trivia, so a tree can be printed back without
loss.
-/

namespace Lineup

/-- The keyword that introduces a type declaration. -/
inductive TypeKeyword where
  | classType
  | structType
  | interfaceType
  | recordType
  | enumType
  deriving DecidableEq, Repr

/-- The spelling of a type keyword. -/
def TypeKeyword.spelling : TypeKeyword → String
  | classType => "class"
  | structType => "struct"
  | interfaceType => "interface"
  | recordType => "record"
  | enumType => "enum"

/-- What a node stands for. -/
inductive NodeKind where
  /-- A whole file. -/
  | compilationUnit
  | usingDirective
  | namespaceDeclaration
  | typeDeclaration (keyword : TypeKeyword) (name : Text)
  /-- A type member other than a nested type. -/
  | member
  /-- Any other text between declarations. -/
  | other
  deriving DecidableEq, Repr

namespace NodeKind

/-- The names of the node kinds, in the order of their numbers. -/
def names : List String :=
  ["compilation-unit", "using-directive", "namespace", "type-declaration", "member",
    "opaque"]

/-- The number of a node kind. -/
def number : NodeKind → Nat
  | compilationUnit => 0
  | usingDirective => 1
  | namespaceDeclaration => 2
  | typeDeclaration _ _ => 3
  | member => 4
  | other => 5

/-- The name of the kind with the given number. -/
def nameOfNumber (number : Int) : String :=
  if number < 0 then "unknown" else names.getD number.toNat "unknown"

/-- The name of a node kind. -/
def name (kind : NodeKind) : String :=
  nameOfNumber kind.number

end NodeKind

/-- The two kinds of lists whose items can be reordered. -/
inductive ListKind where
  | directives
  | members
  deriving DecidableEq, Repr

/-- What a node carries beside its segments. -/
structure NodeInfo where
  /-- The number of the node in its tree. -/
  id : Nat
  kind : NodeKind
  /-- The trivia in front of the node. -/
  leading : Text
  /-- The trivia after the node. -/
  trailing : Text
  /-- The significant tokens of the declaration: all of them for a node without a body,
  those in front of the body otherwise. -/
  head : List Token
  deriving DecidableEq, Repr

mutual

/-- A node of a syntax tree. -/
inductive Node where
  | mk (info : NodeInfo) (segments : List Segment)

/-- One piece of the body of a node. -/
inductive Segment where
  | text (content : Text)
  | node (child : Node)
  | list (kind : ListKind) (items : List Node)

end

namespace Node

/-- What the node carries beside its segments. -/
def info : Node → NodeInfo
  | mk info _ => info

/-- The body of the node. -/
def segments : Node → List Segment
  | mk _ segments => segments

/-- The number of the node in its tree. -/
def id (node : Node) : Nat := node.info.id

/-- What the node stands for. -/
def kind (node : Node) : NodeKind := node.info.kind

/-- The trivia in front of the node. -/
def leading (node : Node) : Text := node.info.leading

/-- The trivia after the node. -/
def trailing (node : Node) : Text := node.info.trailing

/-- The significant tokens of the declaration. -/
def head (node : Node) : List Token := node.info.head

/-- The node with other leading trivia. -/
def withLeading (leading : Text) : Node → Node
  | mk info segments => mk { info with leading } segments

/-- The node with other trailing trivia. -/
def withTrailing (trailing : Text) : Node → Node
  | mk info segments => mk { info with trailing } segments

/-- The node with other segments. -/
def withSegments (segments : List Segment) : Node → Node
  | mk info _ => mk info segments

end Node

/-- The nodes a segment holds, in print order. -/
def Segment.children : Segment → List Node
  | .text _ => []
  | .node child => [child]
  | .list _ items => items

/-- The nodes directly below a node, in print order. -/
def Node.children (node : Node) : List Node :=
  node.segments.flatMap Segment.children

/-- The lists directly owned by a node, in print order. -/
def Node.lists (node : Node) : List (ListKind × List Node) :=
  node.segments.filterMap fun
    | .list kind items => some (kind, items)
    | _ => none

mutual

/-- The source text of a node. -/
def Node.print : Node → Text
  | .mk info segments => info.leading ++ Segment.printAll segments ++ info.trailing

/-- The source text of a segment. -/
def Segment.print : Segment → Text
  | .text content => content
  | .node child => child.print
  | .list _ items => Node.printAll items

/-- The source text of consecutive segments. -/
def Segment.printAll : List Segment → Text
  | [] => []
  | segment :: segments => segment.print ++ Segment.printAll segments

/-- The source text of consecutive nodes. -/
def Node.printAll : List Node → Text
  | [] => []
  | node :: nodes => node.print ++ Node.printAll nodes

end

mutual

/-- A node and all nodes below it, in print order. -/
def Node.family : Node → List Node
  | .mk info segments => .mk info segments :: Segment.familyAll segments

/-- The nodes of a segment, at any depth. -/
def Segment.family : Segment → List Node
  | .text _ => []
  | .node child => child.family
  | .list _ items => Node.familyAll items

/-- The nodes of consecutive segments, at any depth. -/
def Segment.familyAll : List Segment → List Node
  | [] => []
  | segment :: segments => segment.family ++ Segment.familyAll segments

/-- The nodes of consecutive nodes, at any depth. -/
def Node.familyAll : List Node → List Node
  | [] => []
  | node :: nodes => node.family ++ Node.familyAll nodes

end

mutual

/-- Change the node with the given number, wherever it stands. -/
def Node.update (id : Nat) (change : Node → Node) : Node → Node
  | .mk info segments =>
      let updated := Node.mk info (Segment.updateAll id change segments)
      if info.id = id then change updated else updated

/-- Change the node with the given number within a segment. -/
def Segment.update (id : Nat) (change : Node → Node) : Segment → Segment
  | .text content => .text content
  | .node child => .node (child.update id change)
  | .list kind items => .list kind (Node.updateAll id change items)

/-- Change the node with the given number within consecutive segments. -/
def Segment.updateAll (id : Nat) (change : Node → Node) : List Segment → List Segment
  | [] => []
  | segment :: segments =>
      segment.update id change :: Segment.updateAll id change segments

/-- Change the node with the given number within consecutive nodes. -/
def Node.updateAll (id : Nat) (change : Node → Node) : List Node → List Node
  | [] => []
  | node :: nodes => node.update id change :: Node.updateAll id change nodes

end

/-- A syntax tree over a source text. -/
structure Tree where
  source : Text
  /-- The node that holds all others. -/
  top : Node
  /-- The number of the node that stands for the whole tree. -/
  root : Int

namespace Tree

/-- All nodes of the tree, in the order of their numbers. -/
def nodes (tree : Tree) : List Node :=
  sortBy (fun first second => first.id ≤ second.id) tree.top.family

/-- The node with the given number. -/
def node? (tree : Tree) (id : Int) : Option Node :=
  if id < 0 then none else tree.top.family.find? fun node => node.id == id.toNat

/-- The source text of the node that stands for the whole tree, if there is such a
node. -/
def print? (tree : Tree) : Option Text :=
  (tree.node? tree.root).map Node.print

/-- The source text of the whole tree. -/
def print (tree : Tree) : Text :=
  tree.print?.getD []

/-- The tree with one node changed. -/
def update (tree : Tree) (id : Nat) (change : Node → Node) : Tree :=
  { tree with top := tree.top.update id change }

/-- A copy of the tree: all its nodes, segments and lists are built anew, and none is
changed. -/
def clone (tree : Tree) : Tree :=
  tree.update tree.top.id id

end Tree

/-- The items of a list with two of them exchanged; positions past the end change
nothing. -/
def exchange {α : Type} (items : List α) (first second : Nat) : List α :=
  match items[first]?, items[second]? with
  | some left, some right => (items.set first right).set second left
  | _, _ => items

/-- The segments with two items of list number `index` exchanged. -/
def Segment.exchangeItems (first second : Nat) : Nat → List Segment → List Segment
  | _, [] => []
  | 0, .list kind items :: segments =>
      .list kind (exchange items first second) :: segments
  | index + 1, .list kind items :: segments =>
      .list kind items :: Segment.exchangeItems first second index segments
  | index, segment :: segments =>
      segment :: Segment.exchangeItems first second index segments

/-- The node with two items of its list number `index` exchanged. -/
def Node.exchangeItems (index first second : Nat) (node : Node) : Node :=
  node.withSegments (Segment.exchangeItems first second index node.segments)

end Lineup
