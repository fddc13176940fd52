import Mathlib.Data.List.Perm.Basic
import Lineup.Proofs.Syntax.RoundTrip

/-!
# The numbers of the nodes

The parser gives every node a number of its own: the numbers of the nodes of a parsed
tree are 0 for the compilation unit and 1, 2, 3 and so on for the others, in the order
in which they are finished: a node behind all nodes below it. Each step of the parser
keeps the numbers given so far in this order and without gaps, so no two nodes share
one, and the shape of a tree says how its nodes are numbered.
-/

namespace Lineup

@[simp] theorem Segment.familyAll_nil :
    Segment.familyAll [] = [] := by simp [Segment.familyAll]

@[simp] theorem Segment.familyAll_cons (segment : Segment) (segments : List Segment) :
    Segment.familyAll (segment :: segments)
      = segment.family ++ Segment.familyAll segments := by
  simp [Segment.familyAll]

@[simp] theorem Node.familyAll_nil : Node.familyAll [] = [] := by simp [Node.familyAll]

@[simp] theorem Node.familyAll_cons (node : Node) (nodes : List Node) :
    Node.familyAll (node :: nodes) = node.family ++ Node.familyAll nodes := by
  simp [Node.familyAll]

@[simp] theorem Segment.family_text (content : Text) :
    (Segment.text content).family = [] := by
  simp [Segment.family]

@[simp] theorem Segment.family_node (child : Node) :
    (Segment.node child).family = child.family := by
  simp [Segment.family]

@[simp] theorem Segment.family_list (kind : ListKind) (items : List Node) :
    (Segment.list kind items).family = Node.familyAll items := by
  simp [Segment.family]

@[simp] theorem Node.family_mk (info : NodeInfo) (segments : List Segment) :
    (Node.mk info segments).family
      = .mk info segments :: Segment.familyAll segments := by
  simp [Node.family]

mutual

/-- A node behind all nodes below it, which is the order in which they are finished. -/
def Node.finished : Node → List Node
  | .mk info segments => Segment.finishedAll segments ++ [.mk info segments]

/-- The nodes of a segment, at any depth, as they are finished. -/
def Segment.finished : Segment → List Node
  | .text _ => []
  | .node child => child.finished
  | .list _ items => Node.finishedAll items

/-- The nodes of consecutive segments, at any depth, as they are finished. -/
def Segment.finishedAll : List Segment → List Node
  | [] => []
  | segment :: segments => segment.finished ++ Segment.finishedAll segments

/-- The nodes of consecutive nodes, at any depth, as they are finished. -/
def Node.finishedAll : List Node → List Node
  | [] => []
  | node :: nodes => node.finished ++ Node.finishedAll nodes

end

@[simp] theorem Segment.finishedAll_nil : Segment.finishedAll [] = [] := by
  simp [Segment.finishedAll]

@[simp] theorem Segment.finishedAll_cons (segment : Segment) (segments : List Segment) :
    Segment.finishedAll (segment :: segments)
      = segment.finished ++ Segment.finishedAll segments := by
  simp [Segment.finishedAll]

@[simp] theorem Segment.finishedAll_append (segments others : List Segment) :
    Segment.finishedAll (segments ++ others)
      = Segment.finishedAll segments ++ Segment.finishedAll others := by
  induction segments with
  | nil => simp
  | cons segment segments ih => simp [ih]

@[simp] theorem Node.finishedAll_nil :
    Node.finishedAll [] = [] := by simp [Node.finishedAll]

@[simp] theorem Node.finishedAll_cons (node : Node) (nodes : List Node) :
    Node.finishedAll (node :: nodes) = node.finished ++ Node.finishedAll nodes := by
  simp [Node.finishedAll]

@[simp] theorem Segment.finished_text (content : Text) :
    (Segment.text content).finished = [] := by
  simp [Segment.finished]

@[simp] theorem Segment.finished_node (child : Node) :
    (Segment.node child).finished = child.finished := by
  simp [Segment.finished]

@[simp] theorem Segment.finished_list (kind : ListKind) (items : List Node) :
    (Segment.list kind items).finished = Node.finishedAll items := by
  simp [Segment.finished]

@[simp] theorem Node.finished_mk (info : NodeInfo) (segments : List Segment) :
    (Node.mk info segments).finished
      = Segment.finishedAll segments ++ [.mk info segments] := by
  simp [Node.finished]

theorem Segment.sizeOf_child {segment : Segment} {child : Node}
    (member : child ∈ segment.children) :
    sizeOf child < sizeOf segment := by
  cases segment with
  | text content => cases member
  | node child =>
      rw [Segment.children, List.mem_singleton] at member
      subst member
      simp
  | list kind items =>
      rw [Segment.children] at member
      have smaller := List.sizeOf_lt_of_mem member
      simp only [Segment.list.sizeOf_spec]
      omega

theorem Node.sizeOf_child {node child : Node} (member : child ∈ node.children) :
    sizeOf child < sizeOf node := by
  cases node with
  | mk info segments =>
      obtain ⟨segment, present, within⟩ := List.mem_flatMap.mp member
      have smaller := List.sizeOf_lt_of_mem present
      have inner := Segment.sizeOf_child within
      simp only [Node.segments, Node.mk.sizeOf_spec] at smaller ⊢
      omega

/-- What holds of a node once it holds of the nodes directly below it holds of all
nodes. -/
theorem Node.induction {motive : Node → Prop}
    (step : ∀ node, (∀ child ∈ node.children, motive child) → motive node)
    (node : Node) :
    motive node :=
  step node fun child _ => Node.induction step child
  termination_by sizeOf node
  decreasing_by exact Node.sizeOf_child ‹_›

theorem Node.familyAll_eq (nodes : List Node) :
    Node.familyAll nodes = nodes.flatMap Node.family := by
  induction nodes with
  | nil => rfl
  | cons node nodes ih => rw [Node.familyAll_cons, ih, List.flatMap_cons]

theorem Segment.familyAll_eq (segments : List Segment) :
    Segment.familyAll segments
      = (segments.flatMap Segment.children).flatMap Node.family := by
  induction segments with
  | nil => rfl
  | cons segment segments ih =>
      rw [Segment.familyAll_cons, ih, List.flatMap_cons, List.flatMap_append]
      cases segment <;> simp [Segment.children, Node.familyAll_eq]

/-- The family of a node is the node and the families of the nodes directly below it. -/
theorem Node.family_children (node : Node) :
    node.family = node :: node.children.flatMap Node.family := by
  rw [Node.family_eq, Segment.familyAll_eq, Node.children]

theorem Node.finishedAll_eq (nodes : List Node) :
    Node.finishedAll nodes = nodes.flatMap Node.finished := by
  induction nodes with
  | nil => rfl
  | cons node nodes ih => rw [Node.finishedAll_cons, ih, List.flatMap_cons]

theorem Segment.finishedAll_eq (segments : List Segment) :
    Segment.finishedAll segments
      = (segments.flatMap Segment.children).flatMap Node.finished := by
  induction segments with
  | nil => rfl
  | cons segment segments ih =>
      rw [Segment.finishedAll_cons, ih, List.flatMap_cons, List.flatMap_append]
      cases segment <;> simp [Segment.children, Node.finishedAll_eq]

/-- A node is finished behind the nodes directly below it. -/
theorem Node.finished_children (node : Node) :
    node.finished = node.children.flatMap Node.finished ++ [node] := by
  cases node with
  | mk info segments =>
      rw [Node.finished_mk, Segment.finishedAll_eq, Node.children, Node.segments]

/-- The order of finishing has the same nodes as the print order. -/
theorem Node.finished_perm (node : Node) : node.finished.Perm node.family := by
  induction node using Node.induction with
  | step node ih =>
      rw [Node.finished_children, Node.family_children]
      exact (List.perm_append_singleton _ _).trans
        ((List.Perm.flatMap_left _ ih).cons node)

theorem Segment.finishedAll_perm (segments : List Segment) :
    (Segment.finishedAll segments).Perm (Segment.familyAll segments) := by
  rw [Segment.finishedAll_eq, Segment.familyAll_eq]
  exact List.Perm.flatMap_left _ fun node _ => node.finished_perm

namespace Parser

theorem children_addDirective (node : Node) (segments : List Segment) :
    (addDirective node segments).flatMap Segment.children
      = segments.flatMap Segment.children ++ [node] := by
  fun_induction addDirective node segments with
  | case1 => rfl
  | case2 items => simp [Segment.children]
  | case3 segment segments _ ih => simp [ih]

/-- A node that is added to a body stands behind the nodes of the body. -/
theorem children_add (body : Body) (node : Node) :
    (body.add node).segments.flatMap Segment.children
      = body.segments.flatMap Segment.children ++ [node] := by
  cases body with
  | members nodes => simp [Body.add, Body.segments, Segment.children]
  | items braced segments =>
      simp only [Body.add]
      split
      · simp only [Body.segments, children_addDirective]
      · simp [Body.segments, Segment.children]

theorem finishedAll_add (body : Body) (node : Node) :
    Segment.finishedAll (body.add node).segments
      = Segment.finishedAll body.segments ++ node.finished := by
  simp [Segment.finishedAll_eq, children_add]

/-- The numbers of the nodes that were finished so far, those of the outermost body
first. -/
def given (body : Body) : List Frame → List Nat
  | [] => (Segment.finishedAll body.segments).map Node.id
  | frame :: frames =>
      given frame.outer frames ++ (Segment.finishedAll body.segments).map Node.id

/-- The numbers given so far are in order and have no gaps. -/
def Numbered (progress : Progress) : Prop :=
  ∃ count, progress.next = count + 1
    ∧ given progress.body progress.frames = List.range' 1 count

/-- The numbers given once a node was added to a body: those from before, those of its
parts, and its own. -/
theorem given_add (body : Body) (frames : List Frame) (info : NodeInfo)
    (segments : List Segment) :
    given (body.add (.mk info segments)) frames
      = given body frames ++ (Segment.finishedAll segments).map Node.id
        ++ [info.id] := by
  cases frames with
  | nil => simp [given, finishedAll_add, Node.id, Node.info]
  | cons frame frames => simp [given, finishedAll_add, Node.id, Node.info]

/-- A node that is added takes the next number; its parts have theirs. -/
theorem Numbered.add (progress : Progress) {segments : List Segment} {count : Nat}
    (next : progress.next = count + 1)
    (parts : given progress.body progress.frames
      ++ (Segment.finishedAll segments).map Node.id = List.range' 1 count)
    (kind : NodeKind) (leading : Text) (head : List Token) (trailing : Text) :
    Numbered (progress.add kind leading head segments trailing) := by
  refine ⟨count + 1, by simp [Progress.add, next], ?_⟩
  simp only [Progress.add, given_add, parts, next]
  rw [List.range'_1_concat, Nat.add_comm 1 count]

theorem Numbered.take {progress : Progress} (numbered : Numbered progress)
    (leading : Text) (tokens : List Token) (item : Item) :
    Numbered (progress.take leading tokens item).1 := by
  obtain ⟨count, next, numbers⟩ := numbered
  cases item with
  | leaf kind head width => exact .add progress next (by simpa using numbers) _ _ _ _
  | block kind head scope width =>
      refine ⟨count, next, ?_⟩
      have start : Segment.finishedAll scope.start.segments = [] := by
        cases scope <;> simp [Scope.start, Body.segments]
      simpa [Progress.take, Progress.enter, given, start] using numbers

theorem Numbered.leave {progress : Progress} (numbered : Numbered progress)
    (closing trailing : Text) : Numbered (progress.leave closing trailing) := by
  obtain ⟨next, body, frames⟩ := progress
  cases frames with
  | nil => exact numbered
  | cons frame frames =>
      obtain ⟨count, next, numbers⟩ := numbered
      apply Numbered.add { next := _, body := frame.outer, frames } next
      simpa [given] using numbers

/-- Reading an item keeps the numbers in order and without gaps. -/
theorem Numbered.read {progress : Progress} (numbered : Numbered progress)
    (leading : Text) (first : Token) (rest : List Token) :
    Numbered (progress.read leading first rest).1 := by
  rw [Progress.read_eq]
  split
  · exact numbered.leave _ _
  · exact numbered.take _ _ _

/-- Finishing all open declarations numbers all nodes below the compilation unit. -/
theorem numbered_finish (count : Nat) (body : Body) (remaining : Text)
    (frames : List Frame) (numbers : given body frames = List.range' 1 count) :
    ∃ total, (Segment.finishedAll
      (Progress.finish (count + 1) body remaining frames).segments).map Node.id
        = List.range' 1 total := by
  induction frames generalizing count body remaining with
  | nil =>
      refine ⟨count, ?_⟩
      have rest : Segment.finishedAll
          (if remaining.isEmpty then [] else [.text remaining]) = [] := by
        split <;> simp
      simp only [Progress.finish, Node.segments, Segment.finishedAll_append, rest,
        List.append_nil]
      exact numbers
  | cons frame frames ih =>
      apply ih (count + 1)
      have rest : Segment.finishedAll (if body.isBraced then [.text remaining] else [])
          = [] := by
        split <;> simp
      rw [given] at numbers
      rw [given_add, List.range'_1_concat, Nat.add_comm 1 count, ← numbers]
      simp [rest]

theorem Numbered.readAll {progress : Progress} (numbered : Numbered progress)
    (tokens : List Token) :
    ∃ total, (Segment.finishedAll (progress.readAll tokens).segments).map Node.id
      = List.range' 1 total := by
  fun_induction Progress.readAll progress tokens with
  | case1 progress tokens ahead =>
      obtain ⟨count, next, numbers⟩ := numbered
      rw [next]
      exact numbered_finish count _ _ _ numbers
  | case2 progress tokens first rest ahead leading read ih =>
      exact ih (numbered.read _ _ _)

end Parser

namespace Tree

/-- The nodes below the compilation unit are numbered from 1 on as they are finished. -/
theorem finished_parse (source : Text) :
    ∃ total, (Segment.finishedAll (parse source).top.segments).map Node.id
      = List.range' 1 total :=
  Parser.Numbered.readAll ⟨0, rfl, by simp [Parser.given, Parser.Body.segments]⟩ _

/-- The numbers of the nodes of a parsed tree are 0, 1, 2 and so on, each given once. -/
theorem numbers_parse (source : Text) :
    ∃ total, ((parse source).top.family.map Node.id).Perm (List.range total) := by
  obtain ⟨total, numbers⟩ := finished_parse source
  have below := (Segment.finishedAll_perm (parse source).top.segments).map Node.id
  refine ⟨total + 1, ?_⟩
  rw [Node.family_eq, List.map_cons, Node.id, info_top_parse, List.range_eq_range',
    List.range'_succ, ← numbers]
  exact below.symm.cons 0

theorem nodup_numbers_parse (source : Text) :
    ((parse source).top.family.map Node.id).Nodup := by
  obtain ⟨total, perm⟩ := numbers_parse source
  exact perm.nodup_iff.mpr List.nodup_range

end Tree

end Lineup
