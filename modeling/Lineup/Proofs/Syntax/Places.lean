import Lineup.Proofs.Syntax.Numbering

/-!
# Where the nodes of a tree stand

A node starts behind all that is printed in front of it. The nodes of a tree, with their
offsets, are found by going through the segments in print order; the nodes of a body lie
one behind the other, in whatever segments they are gathered.
-/

namespace Lineup

mutual

/-- A node and all nodes below it, in print order, each with the offset at which it
starts, when the node starts at `offset`. -/
def Node.placed (offset : Nat) : Node → List (Nat × Node)
  | .mk info segments =>
      (offset, .mk info segments) :: Segment.placedAll (offset + info.leading.length)
        segments

/-- The nodes of a segment that starts at `offset`, at any depth. -/
def Segment.placed (offset : Nat) : Segment → List (Nat × Node)
  | .text _ => []
  | .node child => child.placed offset
  | .list _ items => Node.placedAll offset items

/-- The nodes of consecutive segments that start at `offset`, at any depth. -/
def Segment.placedAll (offset : Nat) : List Segment → List (Nat × Node)
  | [] => []
  | segment :: segments =>
      segment.placed offset
        ++ Segment.placedAll (offset + segment.print.length) segments

/-- The nodes of consecutive nodes that start at `offset`, at any depth. -/
def Node.placedAll (offset : Nat) : List Node → List (Nat × Node)
  | [] => []
  | node :: nodes =>
      node.placed offset ++ Node.placedAll (offset + node.print.length) nodes

end

@[simp] theorem Segment.placedAll_nil (offset : Nat) :
    Segment.placedAll offset [] = [] := by
  simp [Segment.placedAll]

@[simp] theorem Segment.placedAll_cons (offset : Nat) (segment : Segment)
    (segments : List Segment) :
    Segment.placedAll offset (segment :: segments)
      = segment.placed offset
        ++ Segment.placedAll (offset + segment.print.length) segments := by
  simp [Segment.placedAll]

@[simp] theorem Node.placedAll_nil (offset : Nat) : Node.placedAll offset [] = [] := by
  simp [Node.placedAll]

@[simp] theorem Node.placedAll_cons (offset : Nat) (node : Node) (nodes : List Node) :
    Node.placedAll offset (node :: nodes)
      = node.placed offset ++ Node.placedAll (offset + node.print.length) nodes := by
  simp [Node.placedAll]

@[simp] theorem Segment.placed_text (offset : Nat) (content : Text) :
    (Segment.text content).placed offset = [] := by
  simp [Segment.placed]

@[simp] theorem Segment.placed_node (offset : Nat) (child : Node) :
    (Segment.node child).placed offset = child.placed offset := by
  simp [Segment.placed]

@[simp] theorem Segment.placed_list (offset : Nat) (kind : ListKind)
    (items : List Node) :
    (Segment.list kind items).placed offset = Node.placedAll offset items := by
  simp [Segment.placed]

@[simp] theorem Node.placed_mk (offset : Nat) (info : NodeInfo)
    (segments : List Segment) :
    (Node.mk info segments).placed offset
      = (offset, .mk info segments)
        :: Segment.placedAll (offset + info.leading.length) segments := by
  simp [Node.placed]

@[simp] theorem Segment.placedAll_append (offset : Nat)
    (segments others : List Segment) :
    Segment.placedAll offset (segments ++ others) = Segment.placedAll offset segments
      ++ Segment.placedAll (offset + (Segment.printAll segments).length) others := by
  induction segments generalizing offset with
  | nil => simp
  | cons segment segments ih => simp [ih, Nat.add_assoc]

@[simp] theorem Node.placedAll_append (offset : Nat) (nodes others : List Node) :
    Node.placedAll offset (nodes ++ others) = Node.placedAll offset nodes
      ++ Node.placedAll (offset + (Node.printAll nodes).length) others := by
  induction nodes generalizing offset with
  | nil => simp
  | cons node nodes ih => simp [ih, Nat.add_assoc]

mutual

theorem Node.map_snd_placed (offset : Nat) (node : Node) :
    (node.placed offset).map Prod.snd = node.family := by
  cases node with
  | mk info segments => simp [Segment.map_snd_placedAll]

theorem Segment.map_snd_placed (offset : Nat) (segment : Segment) :
    (segment.placed offset).map Prod.snd = segment.family := by
  cases segment with
  | text content => simp
  | node child => simp [Node.map_snd_placed]
  | list kind items => simp [Node.map_snd_placedAll]

theorem Segment.map_snd_placedAll (offset : Nat) (segments : List Segment) :
    (Segment.placedAll offset segments).map Prod.snd = Segment.familyAll segments := by
  cases segments with
  | nil => simp
  | cons segment segments => simp [Segment.map_snd_placed, Segment.map_snd_placedAll]

theorem Node.map_snd_placedAll (offset : Nat) (nodes : List Node) :
    (Node.placedAll offset nodes).map Prod.snd = Node.familyAll nodes := by
  cases nodes with
  | nil => simp
  | cons node nodes => simp [Node.map_snd_placed, Node.map_snd_placedAll]

end

namespace Parser

theorem placedAll_addDirective (offset : Nat) (node : Node) (segments : List Segment) :
    Segment.placedAll offset (addDirective node segments)
      = Segment.placedAll offset segments
      ++ node.placed (offset + (Segment.printAll segments).length) := by
  fun_induction addDirective node segments generalizing offset with
  | case1 => simp
  | case2 items => simp
  | case3 segment segments _ ih => simp [ih, Nat.add_assoc]

theorem placedAll_add (offset : Nat) (body : Body) (node : Node) :
    Segment.placedAll offset (body.add node).segments
      = Segment.placedAll offset body.segments
      ++ node.placed (offset + (Segment.printAll body.segments).length) := by
  cases body with
  | members nodes => simp [Body.add, Body.segments]
  | items braced segments =>
      simp only [Body.add]
      split
      · simp only [Body.segments, placedAll_addDirective]
      · simp [Body.segments]

/-- The nodes of a body lie one behind the other. -/
theorem placedAll_body (offset : Nat) (scope : Scope) (nodes : List Node) :
    Segment.placedAll offset (scope.body nodes).segments
      = Node.placedAll offset nodes := by
  induction nodes using List.reverseRecOn with
  | nil => cases scope <;> simp [Scope.start, Body.segments]
  | append_singleton nodes node ih =>
      simp [Scope.body_append, placedAll_add, ih, printAll_body]

theorem Closes.placedAll {scope : Scope} {closing trail rest : List Token}
    {final : List Segment} (closes : Closes scope closing trail rest final)
    (offset : Nat) :
    Segment.placedAll offset final = [] := by
  cases closes with
  | brace => simp
  | text => simp
  | nothing => simp

end Parser

end Lineup
