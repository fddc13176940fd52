import Lineup.Proofs.Placement
import Lineup.Proofs.Syntax.Ownership
import Lineup.Proofs.Syntax.Surroundings

/-!
# Items on lines of their own

When each item of a list but the last one ends its line, this stays so after the list
was sorted. If the last item has no line end and another one becomes the last, the line
end of that one moves to the item that has none. Behind every item but the last there is
one line end at most, since something follows it; so no more than this line end is taken
away, and all line ends are still there.
-/

namespace Lineup

namespace Text

/-- What stands in front of the line end of a text. -/
def withoutLineEnd (text : Text) : Text :=
  text.dropEnding text.lineEnd

/-- There is no second line end in front of the one that a text ends with. -/
def EndsOnce (text : Text) : Prop :=
  text.withoutLineEnd.lineEnd = []

theorem withoutLineEnd_append (text : Text) :
    text.withoutLineEnd ++ text.lineEnd = text :=
  text.dropEnding_lineEnd

theorem withoutLineEnd_eq_self {text : Text} (empty : text.lineEnd = []) :
    text.withoutLineEnd = text := by
  have whole := text.withoutLineEnd_append
  rwa [empty, List.append_nil] at whole

theorem EndsOnce.of_lineEnd_eq_nil {text : Text} (empty : text.lineEnd = []) :
    EndsOnce text := by
  rw [EndsOnce, withoutLineEnd_eq_self empty, empty]

section Append

variable {text ending : Text} (empty : text.lineEnd = []) (is : ending ∈ lineEnds)

include empty is

theorem lineEnd_append_of_mem : Text.lineEnd (text ++ ending) = ending := by
  by_cases absent : ending = []
  · rw [absent, List.append_nil, empty]
  · apply Text.lineEnd_append
    · simp only [lineEnds, List.mem_cons, List.not_mem_nil, or_false, absent,
        false_or] at is
      rcases is with rfl | rfl | rfl <;> rfl
    · intro byte last
      refine Bool.eq_false_iff.mpr fun ends => ?_
      exact text.lineEnd_ne_nil_iff.mpr ⟨byte, last, ends⟩ empty

theorem withoutLineEnd_append_of_mem : Text.withoutLineEnd (text ++ ending) = text := by
  have whole := withoutLineEnd_append (text ++ ending)
  rw [lineEnd_append_of_mem empty is] at whole
  exact List.append_cancel_right whole

end Append

end Text

/-! ## What follows an item -/

theorem Span.Trailed.endsOnce {lineStart : Bool} {trail after : List Token}
    (trailed : Span.Trailed trail after) (run : Token.Run lineStart (trail ++ after) [])
    (present : after ≠ []) : Text.EndsOnce (Token.joined trail) := by
  rcases trailed with trails | ⟨rfl, -⟩
  · rcases Span.trailing_lineEnd trails run
      present with empty | ⟨front, newline, rfl, is, text⟩
    · exact .of_lineEnd_eq_nil empty
    · -- No comment or blank in front of the line end ends a line itself.
      obtain ⟨inline, last⟩ := Span.Trailed.inline (.inl trails)
      rw [List.dropLast_concat] at last
      obtain ⟨before, read, -⟩ := Token.run_append.mp (Token.run_append.mp run).1
      have plain := Span.getLast?_joined before (by simp [read.text_ne_nil])
        (fun token member => inline token (List.mem_append_left _ member)) last
      have whole := Text.withoutLineEnd_append (Token.joined (front ++ [newline]))
      have parted : Token.joined (front ++ [newline])
          = Token.joined front ++ newline.text := by simp
      rw [← text, parted, List.append_left_inj] at whole
      rw [Text.EndsOnce, parted, whole]
      exact Text.lineEnd_eq_nil plain
  · exact .of_lineEnd_eq_nil rfl

theorem Segment.infix_children {kind : ListKind} {items : List Node}
    {segments : List Segment} (member : .list kind items ∈ segments) :
    items <:+: segments.flatMap Segment.children := by
  obtain ⟨before, after, rfl⟩ := List.append_of_mem member
  refine ⟨before.flatMap Segment.children, after.flatMap Segment.children, ?_⟩
  rw [List.flatMap_append, List.flatMap_cons, List.append_assoc]
  rfl

theorem mem_dropLast_of_within {α : Type} {items others : List α}
    (within : items <:+: others) {item : α} (member : item ∈ items.dropLast) :
    item ∈ others.dropLast := by
  obtain ⟨before, after, rfl⟩ := within
  cases after with
  | nil =>
      have present : items ≠ [] := by
        rintro rfl
        cases member
      rw [List.append_nil, List.dropLast_append_of_ne_nil present]
      exact List.mem_append_right _ member
  | cons next after =>
      rw [List.dropLast_append_of_ne_nil (List.cons_ne_nil next after)]
      have listed := List.dropLast_subset items member
      simp [listed]

namespace Parser

/-- Behind each node that another one follows there is one line end at most. -/
def Followed (nodes : List Node) : Prop :=
  ∀ node ∈ nodes.dropLast, Text.EndsOnce node.trailing

theorem Followed.cons {scope : Scope} {nodes : List Node}
    {tokens rest trail : List Token} {node : Node} {lineStart : Bool}
    (followed : Followed nodes) (others : Parsed scope nodes tokens rest)
    (trailing : node.trailing = Token.joined trail)
    (trailed : Span.Trailed trail (tokens ++ rest))
    (run : Token.Run lineStart (trail ++ (tokens ++ rest)) []) :
    Followed (node :: nodes) := by
  cases others with
  | nil => exact List.forall_mem_nil _
  | _ =>
      rw [Followed, List.dropLast_cons_of_ne_nil (List.cons_ne_nil _ _),
        List.forall_mem_cons, trailing]
      exact ⟨trailed.endsOnce run (by simp), followed⟩

/-- Parsed nodes, and those inside of them at any depth, have one line end at most
behind each node that another one follows. -/
theorem Parsed.followed {scope : Scope} {nodes : List Node} {tokens rest : List Token}
    (parsed : Parsed scope nodes tokens rest)
    (run : ∃ lineStart, Token.Run lineStart (tokens ++ rest) []) :
    Followed nodes ∧ ∀ node ∈ nodes.flatMap Node.family, Followed node.children := by
  induction parsed with
  | nil => exact ⟨List.forall_mem_nil _, List.forall_mem_nil _⟩
  | @leaf scope id kind first head lead core trail tokens rest nodes trivia starts
        inside reads trails others ih =>
      obtain ⟨lineStart, run⟩ := run
      have parted : lead ++ first :: (core ++ (trail ++ tokens)) ++ rest
          = (lead ++ first :: core) ++ (trail ++ (tokens ++ rest)) := by simp
      rw [parted] at run
      have behind := (Token.run_append.mp run).2
      have later := ih ⟨_, (Token.run_append.mp behind).2⟩
      refine ⟨later.1.cons others rfl (.inl trails) behind, ?_⟩
      rw [List.flatMap_cons, Node.family_children, List.cons_append,
        List.forall_mem_cons]
      exact ⟨List.forall_mem_nil _, later.2⟩
  | @block scope inner id kind first head lead header opening body closing trail tokens
        rest nodes members final trivia starts inside reads opens within closes others
        ihWithin ih =>
      obtain ⟨lineStart, run⟩ := run
      have parted : lead
          ++ first :: (header ++ (opening ++ (body ++ (closing ++ (trail ++ tokens)))))
            ++ rest
          = (lead ++ first :: (header ++ opening))
            ++ (body ++ (closing ++ (trail ++ (tokens ++ rest)))) := by simp
      rw [parted] at run
      have entered := (Token.run_append.mp run).2
      have behind := (Token.run_append.mp (Token.run_append.mp entered).2).2
      have below := ihWithin ⟨_, entered⟩
      have later := ih ⟨_, (Token.run_append.mp behind).2⟩
      refine ⟨later.1.cons others rfl closes.trailed behind, ?_⟩
      rw [List.flatMap_cons, Node.family_children, List.cons_append,
        List.forall_mem_cons, children_block closes, List.forall_mem_append]
      exact ⟨below.1, below.2, later.2⟩

end Parser

open Arrange (Listing)

/-- Behind each item of a list of a file that another item follows there is one line end
at most. -/
theorem Tree.endsOnce_parse {source : Text} {listing : Listing}
    (member : listing ∈ (parse source).listings) :
    ∀ item ∈ listing.items.dropLast, Text.EndsOnce item.trailing := by
  have run : Token.Run true (Token.lex source) [] := Token.run_lexFrom true 0 source
  have followed : ∀ node
      ∈ (parse source).top.family, Parser.Followed node.children := by
    have file := Parser.parse_file source
    generalize (parse source).top = top at file
    cases file with
    | @intro nodes tokens tail parsed trivia all =>
        have nodes := parsed.followed ⟨true, all ▸ run⟩
        rw [Node.family_children, List.forall_mem_cons, Parser.children_file]
        exact nodes
  obtain ⟨node, family, owned⟩ :=
    List.mem_flatMap.mp ((listings_perm _).mem_iff.mp member)
  obtain ⟨segment, held, own⟩ := List.mem_flatMap.mp owned
  cases segment with
  | text content => cases own
  | node child => cases own
  | list kind items =>
      rw [List.mem_singleton.mp own]
      intro item among
      exact followed node family item
        (mem_dropLast_of_within (Segment.infix_children held) among)

/-! ## The line end that moves -/

theorem Text.dropEnding_nil (text : Text) : text.dropEnding [] = text := by
  simp [Text.dropEnding]

theorem Node.withTrailing_trailing (node : Node) :
    node.withTrailing node.trailing = node := by
  cases node
  rfl

theorem Node.trailing_withTrailing (node : Node) (trailing : Text) :
    (node.withTrailing trailing).trailing = trailing := by
  cases node
  rfl

namespace Arrange

/-- The trivia behind the items of a list after it was sorted. -/
structure KeepsLines (before after : List Node) : Prop where
  permuted : (after.map Node.id).Perm (before.map Node.id)
  /-- What stands behind an item stays, up to its line end. -/
  behind : ∀ old ∈ before, ∀ new ∈ after, new.id = old.id →
    new.trailing.withoutLineEnd = old.trailing.withoutLineEnd
  lineEnds : (after.map fun item => item.trailing.lineEnd).Perm
    (before.map fun item => item.trailing.lineEnd)
  /-- If each item but the last one ended its line, each item but the last one does. -/
  separate : (∀ item ∈ before.dropLast, item.trailing.lineEnd ≠ []) →
    ∀ item ∈ after.dropLast, item.trailing.lineEnd ≠ []

/-- Items that are listed once keep what stands behind them if it is kept as a whole. -/
theorem KeepsLines.of_perm {before after : List Node}
    (distinct : (before.map Node.id).Nodup)
    (kept : (after.map fun item => (item.id, item.trailing.withoutLineEnd)).Perm
      (before.map fun item => (item.id, item.trailing.withoutLineEnd)))
    (lineEnds : (after.map fun item => item.trailing.lineEnd).Perm
      (before.map fun item => item.trailing.lineEnd))
    (separate : (∀ item ∈ before.dropLast, item.trailing.lineEnd ≠ []) →
      ∀ item ∈ after.dropLast, item.trailing.lineEnd ≠ []) :
    KeepsLines before after where
  permuted := by
    have ids := kept.map Prod.fst
    rwa [List.map_map, List.map_map] at ids
  behind old listed new member same := by
    have shown := kept.mem_iff.mp (List.mem_map_of_mem member)
    obtain ⟨item, among, equal⟩ := List.mem_map.mp shown
    obtain ⟨number, text⟩ := Prod.mk.inj equal
    rw [← text, List.inj_on_of_nodup_map distinct among listed (number.trans same)]
  lineEnds := lineEnds
  separate := separate

/-- The number of a node and the trivia behind it. -/
def ending (node : Node) : Nat × Text :=
  (node.id, node.trailing)

/-- Only the numbers of the items and the trivia behind them matter. -/
theorem KeepsLines.congr {before after others : List Node}
    (keeps : KeepsLines before after) (same : others.map ending = after.map ending) :
    KeepsLines before others := by
  have views {α : Type} (view : Nat × Text → α) :
      others.map (fun item => view (ending item)) = after.map fun item =>
        view (ending item) := by
    have viewed := congrArg (List.map view) same
    rwa [List.map_map, List.map_map] at viewed
  have found {nodes more : List Node} (same : nodes.map ending = more.map ending)
      {item : Node} (member : item ∈ nodes) : ∃ other ∈ more, other.id = item.id
        ∧ other.trailing = item.trailing := by
    have shown : ending item ∈ more.map ending := same ▸ List.mem_map_of_mem member
    obtain ⟨other, listed, equal⟩ := List.mem_map.mp shown
    exact ⟨other, listed, Prod.mk.inj equal⟩
  constructor
  · have numbers := views Prod.fst
    exact numbers ▸ keeps.permuted
  · intro old listed new member number
    obtain ⟨other, among, id, trailing⟩ := found same member
    rw [← trailing]
    exact keeps.behind old listed other among (id.trans number)
  · have ends := views fun item => item.2.lineEnd
    exact ends ▸ keeps.lineEnds
  · intro separate item member
    have front := congrArg List.dropLast same
    rw [← List.map_dropLast, ← List.map_dropLast] at front
    obtain ⟨other, among, -, trailing⟩ := found front member
    rw [← trailing]
    exact keeps.separate separate other among

theorem map_ending_padFrom (separateMoved : Bool) (previous : Text) (place : Nat)
    (entries : List Entry) : (padFrom separateMoved previous place entries).map ending
      = entries.map fun entry => ending entry.node := by
  induction entries generalizing previous place with
  | nil => rfl
  | cons entry entries ih => simp [padFrom, ih, ending, Node.id, Node.trailing]

theorem map_ending_pad (separateMoved : Bool) (header : List TriviaLine)
    (entries : List Entry) :
    (pad separateMoved header entries).map ending
      = (entries.map Entry.node).map ending := by
  cases entries with
  | nil => rfl
  | cons entry entries => simp [pad, map_ending_padFrom, ending, Node.id, Node.trailing]

section Moved

variable {front middle : List Entry} {old new : Entry}
  (distinct : ((front ++ old :: (middle ++ [new])).map Entry.position).Nodup)
  (is : old.position = front.length + middle.length + 1)

include distinct is

theorem movedLineEnd_of_moved : movedLineEnd (front ++ old :: (middle ++ [new]))
    = if old.node.trailing.lineEnd = [] then new.node.trailing.lineEnd else [] := by
  have size : (front ++ old :: (middle ++ [new])).length - 1 = old.position := by
    simp only [List.length_append, List.length_cons, List.length_nil, is]
    omega
  have leaves : countMoved 0 (front ++ old :: (middle ++ [new])) ≠ 0 := by
    intro still
    have placed : old.position = front.length := by
      simpa using congrArg (·[front.length]?) (countMoved_eq_zero_iff.mp still)
    omega
  have final : (front ++ old :: (middle ++ [new])).getLast? = some new := by
    rw [← List.cons_append, ← List.append_assoc, List.getLast?_concat]
  rw [List.map_append, List.map_cons, List.map_append, List.nodup_append,
    List.nodup_cons] at distinct
  have found : (front ++ old :: (middle ++ [new])).find?
      (fun entry => entry.position == old.position)
      = some old := by
    rw [List.find?_append, List.find?_eq_none.mpr, Option.none_or]
    · exact List.find?_cons_of_pos (beq_self_eq_true old.position)
    · intro entry member
      have apart := distinct.2.2 entry.position (List.mem_map_of_mem member)
        old.position List.mem_cons_self
      simpa using apart
  have apart : new.position ≠ old.position := by
    intro same
    exact distinct.2.1.1 (by simp [same])
  rw [movedLineEnd, size, found, final]
  simp [leaves, apart]

/-- When another entry becomes the last one, its line end moves if the entry that was
last has none. -/
theorem settle_eq_of_moved :
    let lineEnd := new.node.trailing.lineEnd
    settle (front ++ old :: (middle ++ [new]))
      = if old.node.trailing.lineEnd = [] ∧ lineEnd ≠ [] then
          front ++ { old with
            node := old.node.withTrailing (old.node.trailing ++ lineEnd) }
            :: (middle ++ [{ new with
              node := new.node.withTrailing (new.node.trailing.dropEnding lineEnd) }])
        else front ++ old :: (middle ++ [new]) := by
  intro lineEnd
  have moved := movedLineEnd_of_moved distinct is
  rcases settle_of_moved distinct is with ⟨same, empty⟩ | ⟨found, handed⟩
  · rw [same, if_neg]
    rintro ⟨without, ends⟩
    rw [if_pos without, empty] at moved
    exact ends moved.symm
  · split
    · exact handed
    · rename_i stays
      have empty : new.node.trailing.lineEnd = [] := by
        by_contra ends
        rw [found, if_neg fun without => stays ⟨without, ends⟩] at moved
        exact ends moved
      rw [handed, empty, List.append_nil, Text.dropEnding_nil,
        Node.withTrailing_trailing, Node.withTrailing_trailing]

end Moved

theorem perm_nodes {items : List Node} {sorted : List Entry}
    (perm : sorted.Perm (entries items).2) :
    (sorted.map Entry.node).Perm items := by
  have nodes := perm.map Entry.node
  rwa [entries_nodes] at nodes

theorem mem_dropLast_of_position {items : List Node} {sorted : List Entry}
    (perm : sorted.Perm (entries items).2) {entry : Entry} (member : entry ∈ sorted)
    (other : entry.position ≠ items.length - 1) : entry.node ∈ items.dropLast := by
  have found := getElem?_position (perm.mem_iff.mp member)
  have inside := (List.getElem?_eq_some_iff.mp found).1
  apply List.mem_of_getElem? (i := entry.position)
  rw [List.getElem?_dropLast, if_pos (by omega), found]

theorem perm_exchange {α : Type} (front middle : List α) (first last : α) :
    (front ++ last :: (middle ++ [first])).Perm
      (front ++ first :: (middle ++ [last])) := by
  have lastInFront := List.perm_append_singleton first (last :: middle)
  have lastBehind := (List.perm_append_singleton last middle).symm.cons first
  exact (lastInFront.trans lastBehind).append_left front

section Settle

variable {items : List Node} (distinct : (items.map Node.id).Nodup)
  {front middle : List Entry} {old new : Entry}
  (perm : (front ++ old :: (middle ++ [new])).Perm (entries items).2)
  (before : ∀ entry ∈ front, entry.position ≠ items.length - 1)
  (after : ∀ entry ∈ middle ++ [new], entry.position ≠ items.length - 1)

include perm before after

/-- If all items but the last one end their lines, only the entry that was the last one
may not. -/
theorem lineEnd_ne_nil_of_separate
    (separate : ∀ item ∈ items.dropLast, item.trailing.lineEnd ≠ []) :
    (∀ entry ∈ front, entry.node.trailing.lineEnd ≠ [])
      ∧ ∀ entry ∈ middle ++ [new], entry.node.trailing.lineEnd ≠ [] := by
  constructor
  · intro entry member
    have listed := List.mem_append_left (old :: (middle ++ [new])) member
    exact separate _ (mem_dropLast_of_position perm listed (before entry member))
  · intro entry member
    have listed := List.mem_append_right front (List.mem_cons_of_mem old member)
    exact separate _ (mem_dropLast_of_position perm listed (after entry member))

include distinct

/-- The line end of the entry that becomes the last one goes to the one that was. -/
theorem keepsLines_handOver
    (once : ∀ item ∈ items.dropLast, Text.EndsOnce item.trailing)
    (without : old.node.trailing.lineEnd = []) (ends : new.node.trailing.lineEnd ≠ []) :
    KeepsLines items (front.map Entry.node
      ++ old.node.withTrailing (old.node.trailing ++ new.node.trailing.lineEnd)
        :: (middle.map Entry.node
          ++ [new.node.withTrailing new.node.trailing.withoutLineEnd])) := by
  have nodes := perm_nodes perm
  have single : Text.EndsOnce new.node.trailing :=
    once _ (mem_dropLast_of_position perm (by simp) (after new (by simp)))
  have gained := Text.lineEnd_append_of_mem without new.node.trailing.lineEnd_mem
  have kept := Text.withoutLineEnd_append_of_mem without new.node.trailing.lineEnd_mem
  have bare := Text.withoutLineEnd_eq_self without
  have lost : new.node.trailing.withoutLineEnd.lineEnd = [] := single
  have again := Text.withoutLineEnd_eq_self lost
  apply KeepsLines.of_perm distinct
  · refine List.Perm.trans (.of_eq ?_) (nodes.map _)
    simp [Node.id, Node.trailing_withTrailing, kept, bare, again]
  · refine List.Perm.trans ?_ (nodes.map fun item => item.trailing.lineEnd)
    simp only [List.map_append, List.map_cons, List.map_nil, Node.trailing_withTrailing,
      gained, lost, without]
    exact perm_exchange _ _ _ _
  · intro separate
    obtain ⟨fronts, others⟩ := lineEnd_ne_nil_of_separate perm before after separate
    rw [List.forall_mem_append] at others
    rw [← List.cons_append, ← List.append_assoc, List.dropLast_concat,
      List.forall_mem_append, List.forall_mem_cons, List.forall_mem_map,
      List.forall_mem_map, Node.trailing_withTrailing, gained]
    exact ⟨fronts, ends, others.1⟩

/-- Where no line end moves, the entry that was the last one has one, unless some other
entry has none either. -/
theorem keepsLines_of_stays
    (stays : ¬ (old.node.trailing.lineEnd = [] ∧ new.node.trailing.lineEnd ≠ [])) :
    KeepsLines items ((front ++ old :: (middle ++ [new])).map Entry.node) := by
  have nodes := perm_nodes perm
  refine .of_perm distinct (nodes.map _) (nodes.map _) fun separate => ?_
  obtain ⟨fronts, others⟩ := lineEnd_ne_nil_of_separate perm before after separate
  have ends := others new (by simp)
  rw [List.forall_mem_append] at others
  rw [← List.cons_append, ← List.append_assoc, List.map_append, List.map_singleton,
    List.dropLast_concat, List.forall_mem_map, List.forall_mem_append,
    List.forall_mem_cons]
  exact ⟨fronts, fun without => stays ⟨without, ends⟩, others.1⟩

end Settle

/-- Settling the entries keeps their lines apart. -/
theorem keepsLines_settle {items : List Node} (distinct : (items.map Node.id).Nodup)
    {sorted : List Entry} (perm : sorted.Perm (entries items).2) (present : items ≠ [])
    (once : ∀ item ∈ items.dropLast, Text.EndsOnce item.trailing) :
    KeepsLines items ((settle sorted).map Entry.node) := by
  have size : items.length - 1 + 1 = items.length :=
    Nat.sub_add_cancel (List.length_pos_of_ne_nil present)
  have positions := perm.map Entry.position
  rw [entries_positions, ← size] at positions
  obtain ⟨front, old, back, rfl, is, before, after, -⟩ := split_last positions
  have total : (front ++ old :: back).length = items.length :=
    perm.length_eq.trans (entries_length items)
  rw [List.length_append, List.length_cons] at total
  cases back using List.reverseRecOn with
  | nil =>
      have nodes := perm_nodes perm
      rw [(settle_of_last (by simp only [List.length_nil] at total; omega)).1]
      refine .of_perm distinct (nodes.map _) (nodes.map _) fun separate => ?_
      rw [List.map_append, List.map_singleton, List.dropLast_concat,
        List.forall_mem_map]
      intro entry member
      exact separate _
        (mem_dropLast_of_position perm (List.mem_append_left _ member)
          (before entry member))
  | append_singleton middle new =>
      rw [List.length_append, List.length_singleton] at total
      rw [settle_eq_of_moved (positions.nodup_iff.mpr List.nodup_range) (by omega)]
      split
      · rename_i moves
        have handed := keepsLines_handOver distinct perm before after once
          moves.1 moves.2
        simpa [Text.withoutLineEnd] using handed
      · rename_i stays
        exact keepsLines_of_stays distinct perm before after stays

/-- A list that is sorted keeps its items on lines of their own. -/
theorem keepsLines_list (options : Options) (source : Text) (fallback : AccessLevel)
    (kind : ListKind) {items : List Node} (distinct : (items.map Node.id).Nodup)
    (sorts : ¬ (items.length < 2 ∨ isReorderable (entries items).2 = false))
    (once : ∀ item ∈ items.dropLast, Text.EndsOnce item.trailing) :
    KeepsLines items (list options source fallback kind items).1 := by
  have present : items ≠ [] := by
    rintro rfl
    exact sorts (.inl Nat.zero_lt_two)
  rw [list_fst, if_neg sorts]
  have perm := order_perm options source fallback kind (entries items).2
  exact (keepsLines_settle distinct perm present once).congr (map_ending_pad _ _ _)

/-- What becomes of the items of a list inside of them does not matter. -/
theorem KeepsLines.map {before after : List Node} {change : Node → Node}
    (inner : IsInner change) (keeps : KeepsLines before after) :
    KeepsLines before (after.map change) := by
  refine keeps.congr ?_
  simp [ending, Node.id, Node.trailing, inner.info]

end Arrange

namespace Tree

/-- Reorganizing a parsed file succeeds, and every list of it that is sorted keeps its
items on lines of their own: what stands behind each item in front of its line end
stays, the line ends are all still there, and if each item but the last one ended its
line, each item but the last one does. -/
theorem reorganize_parse_keepsLines (options : Options) (source : Text) :
    ∃ after report, (parse source).reorganize? options = some (after, report)
      ∧ List.Forall₂ (fun node other => other.id = node.id
          ∧ List.Forall₂ (fun old new : Listing => new.kind = old.kind
              ∧ (old.Sorts → Arrange.KeepsLines old.items new.items))
            node.listings other.listings)
        (parse source).nodes after.nodes := by
  refine ⟨_, _, reorganize?_parse options source, ?_⟩
  have listed : ∀ node ∈ (parse source).nodes, ∀ listing ∈ node.listings,
      (listing.items.map Node.id).Nodup
        ∧ ∀ item ∈ listing.items.dropLast, Text.EndsOnce item.trailing := by
    intro node member listing owned
    have within := List.mem_flatMap.mpr ⟨node, member, owned⟩
    exact ⟨nodup_items_parse within, endsOnce_parse within⟩
  apply ((List.forall₂_and_left _ _).mpr ⟨listed, nodes_becomes options source⟩).imp
  rintro node other ⟨listed, becomes⟩
  refine ⟨becomes.id, ?_⟩
  apply ((List.forall₂_and_left _ _).mpr ⟨listed, becomes.listings⟩).imp
  rintro old new ⟨⟨distinct, once⟩, becomes⟩
  refine ⟨becomes.kind, fun sorts => ?_⟩
  rw [becomes.items]
  exact (Arrange.keepsLines_list options source _ _ distinct (old.sorts_iff.mp sorts)
    once).map (Node.reorganize_isInner options source)

/-- The comment behind a directive stays there, and its line end moves to the one
without. -/
example : (reorganizeText {} (utf8 "using B; // b\r\nusing A;")).1
    = utf8 "using A;\r\nusing B; // b" := by
  decide +kernel

end Tree

end Lineup
