import Lineup.Proofs.Placement

/-!
# Blank lines between the items of a list

After a list was sorted its blank lines are tidy: behind the header no two of them stand
in a row, and the first item has none in front of it. A member that was moved has a
blank line in front of it whenever a line ends behind the item before it. Otherwise no
blank line is added: directives, and all items that stay at their places, have at most
as many of them as before.
-/

namespace Lineup

namespace TriviaLine

/-- The number of blank lines in a piece of trivia. -/
def blankLines (trivia : Text) : Nat :=
  (split trivia).countP isBlank

end TriviaLine

namespace Arrange

open TriviaLine (Lines Spaced Starts blankLines)

/-- The trivia that stays in front of a list. -/
def header (items : List Node) : Text :=
  TriviaLine.joined (entries items).1

/-- The leading trivia of an item at a place of a list, without the header of the
list. -/
def ownLeading (header : Text) (place : Nat) (item : Node) : Text :=
  if place = 0 then item.leading.drop header.length else item.leading

/-- An item of a list that comes to stand at `place` after it stood at `position`. -/
structure Moves (before after : List Node) (position place : Nat) (old new : Node) :
    Prop where
  stood : before[position]? = some old
  stands : after[place]? = some new
  same : new.id = old.id

/-- The blank lines of a list after it was sorted. -/
structure Padded (kind : ListKind) (before after : List Node) : Prop where
  permuted : (after.map Node.id).Perm (before.map Node.id)
  /-- The header stands in front of the first item, in lines of its own. -/
  front : ∀ first ∈ after.head?, header before <+: first.leading
    ∧ TriviaLine.split first.leading
      = TriviaLine.split (header before)
        ++ TriviaLine.split (ownLeading (header before) 0 first)
  spaced : ∀ place item, after[place]? = some item →
    Spaced (TriviaLine.split (ownLeading (header before) place item))
  starts : ∀ first ∈ after.head?,
    Starts (TriviaLine.split (ownLeading (header before) 0 first))
  setOff : kind = .members → ∀ position place old new previous,
    Moves before after position (place + 1) old new → position ≠ place + 1 →
    after[place]? = some previous →
      (∃ byte ∈ previous.trailing.getLast?, Byte.isLineEnd byte = true) →
    0 < blankLines new.leading
  fewer : ∀ position place old new, Moves before after position place old new →
    kind = .directives ∨ position = place →
    blankLines (ownLeading (header before) place new)
      ≤ blankLines (ownLeading (header before) position old)

section Own

variable {items : List Node} {place : Nat} {item : Node}

theorem split_ownLeading {own : List TriviaLine}
    (lines : TriviaLine.split item.leading
      = (if place = 0 then (entries items).1 else []) ++ own) :
    TriviaLine.split (ownLeading (header items) place item) = own := by
  obtain ⟨tokens, made⟩ := (TriviaLine.lines_split item.leading).suffix ⟨_, lines.symm⟩
  have leading := congrArg TriviaLine.joined lines
  rw [TriviaLine.joined_split, TriviaLine.joined_append] at leading
  have rest : ownLeading (header items) place item = TriviaLine.joined own := by
    rw [ownLeading, leading]
    split
    · exact List.drop_left
    · rfl
  rw [rest, made.split_joined]

theorem split_header (items : List Node) :
    TriviaLine.split (header items) = (entries items).1 := by
  obtain ⟨⟨more, tokens, made⟩, complete⟩ := header_lines items
  obtain ⟨kept, alone⟩ := made.before complete .nil nofun
  rw [List.append_nil] at alone
  exact alone.split_joined

theorem lines_entriesFrom {position : Nat} :
    ∀ entry ∈ entriesFrom position items, position ≤ entry.position
      ∧ entry.lines = TriviaLine.split entry.node.leading := by
  induction items generalizing position with
  | nil => exact nofun
  | cons item items ih =>
      intro entry member
      rcases List.mem_cons.mp member with rfl | later
      · exact ⟨Nat.le_refl _, rfl⟩
      · obtain ⟨behind, lines⟩ := ih entry later
        exact ⟨Nat.le_of_succ_le behind, lines⟩

theorem lines_entries {entry : Entry} (member : entry ∈ (entries items).2) :
    TriviaLine.split (ownLeading (header items) entry.position entry.node)
      = entry.lines := by
  apply split_ownLeading
  cases items with
  | nil => cases member
  | cons item items =>
      cases List.mem_cons.mp member with
      | inl first =>
          rw [first]
          exact (TriviaLine.splitHeader_append _).symm
      | inr later =>
          obtain ⟨behind, lines⟩ := lines_entriesFrom entry later
          rw [if_neg (Nat.pos_iff_ne_zero.mp behind), lines, List.nil_append]

end Own

/-- An item that is not set off has no more blank lines than before. -/
theorem Leads.countP_le {kind : ListKind} {items : List Node} {entry : Entry}
    {place : Nat} {leading : Text}
    (leads : Leads (separates kind) (entries items).1 entry place leading)
    {tokens : List Token} (made : Lines entry.lines tokens)
    (stays : kind = .directives ∨ entry.position = place) {own : List TriviaLine}
    (lines : TriviaLine.split leading
      = (if place = 0 then (entries items).1 else []) ++ own) :
    own.countP TriviaLine.isBlank ≤ entry.lines.countP TriviaLine.isBlank := by
  have kept : (TriviaLine.collapse entry.lines).Sublist entry.lines :=
    TriviaLine.collapseFrom_sublist false entry.lines
  cases leads with
  | first =>
      rw [split_firstLeading items made, if_pos rfl, List.append_right_inj] at lines
      rw [← lines]
      exact ((List.dropWhile_sublist _).trans kept).countP_le
  | later place previous =>
      have inside : ¬ SetOff (separates kind) previous (place + 1) entry := by
        rintro ⟨separate, moved, -⟩
        rcases stays with rfl | same
        · cases separate
        · exact moved same
      rw [split_laterLeading made, if_neg inside,
        if_neg (Nat.succ_ne_zero place)] at lines
      rw [← List.append_right_inj [] |>.mp lines]
      exact kept.countP_le

section Sorted

variable (options : Options) (source : Text) (fallback : AccessLevel) (kind : ListKind)

variable {items : List Node} (distinct : (items.map Node.id).Nodup)
  (sorts : ¬ (items.length < 2 ∨ isReorderable (entries items).2 = false))
  {position place : Nat} {old new : Node}

include distinct sorts

/-- A member that was moved has a blank line in front of it where a line ends behind the
item before it. -/
theorem blankLines_pos_list
    (moves : Moves items (list options source fallback .members items).1 position
      (place + 1) old new)
    (moved : position ≠ place + 1) {previous : Node}
    (behind : (list options source fallback .members items).1[place]? = some previous)
    (ends : ∃ byte ∈ previous.trailing.getLast?, Byte.isLineEnd byte = true) :
    0 < blankLines new.leading := by
  obtain ⟨stood, stands, same⟩ := moves
  rw [list_fst, if_neg sorts] at stands behind
  rw [getElem?_pad_succ behind, Option.map_eq_some_iff] at stands
  obtain ⟨settled, found, rfl⟩ := stands
  obtain ⟨entry, member, at_, lines, number⟩ := mem_settle (List.mem_of_getElem? found)
  rw [(order_perm options source fallback .members _).mem_iff] at member
  obtain ⟨tokens, made⟩ := entries_lines items entry member
  rw [← lines] at made
  rw [blankLines, Node.leading_withLeading, split_laterLeading made, List.countP_append]
  by_cases blank : ∀ line ∈ TriviaLine.collapse settled.lines, line.isBlank = false
  · have number : entry.node.id = old.id := by
      rw [← number, ← same]
      simp [Node.id]
    have place_ne : settled.position ≠ place + 1 := by
      rw [at_, position_eq distinct member stood number]
      exact moved
    rw [if_pos ⟨rfl, place_ne, blank, (Text.lineEnd_ne_nil_iff _).mpr ends⟩]
    exact Nat.add_pos_left Nat.one_pos _
  · push Not at blank
    obtain ⟨line, within, is⟩ := blank
    exact Nat.add_pos_right
      _ (List.countP_pos_iff.mpr ⟨line, within, Bool.ne_false_iff.mp is⟩)

/-- A directive, or an item that stays at its place, has no more blank lines than
before. -/
theorem blankLines_list_le
    (moves : Moves items (list options source fallback kind items).1 position place
      old new)
    (stays : kind = .directives ∨ position = place) :
    blankLines (ownLeading (header items) place new)
      ≤ blankLines (ownLeading (header items) position old) := by
  obtain ⟨stood, stands, same⟩ := moves
  obtain ⟨entry, settled, leading, member, rfl, changed, leads, tokens, made⟩ :=
    list_placed options source fallback kind sorts stands
  obtain ⟨own, lines, -⟩ := list_tidied options source fallback kind sorts stands
  obtain ⟨trailing, node, -⟩ := changed.node
  have at_ : entry.position = position := by
    refine position_eq distinct member stood ?_
    rw [← same, node]
    simp [Node.id]
  have former : blankLines (ownLeading (header items) position old)
      = settled.lines.countP TriviaLine.isBlank := by
    have found := getElem?_position member
    rw [at_, stood] at found
    rw [blankLines, Option.some.inj found, ← at_, lines_entries member, changed.lines]
  rw [former, blankLines, split_ownLeading lines]
  rw [Node.leading_withLeading] at lines
  rw [← at_, ← changed.position] at stays
  exact leads.countP_le made stays lines

/-- A sorted list is padded. -/
theorem padded_list :
    Padded kind items (list options source fallback kind items).1 := by
  have tidied {place : Nat} {item : Node}
      (placed : (list options source fallback kind items).1[place]? = some item) :=
    list_tidied options source fallback kind sorts placed
  constructor
  · exact list_ids options source fallback kind items
  · intro first found
    rw [List.head?_eq_getElem?] at found
    obtain ⟨own, lines, -⟩ := tidied found
    refine ⟨?_, ?_⟩
    · rw [if_pos rfl] at lines
      rw [← TriviaLine.joined_split first.leading, lines, TriviaLine.joined_append]
      exact List.prefix_append _ _
    · rw [split_ownLeading lines, split_header]
      exact lines
  · intro place item placed
    obtain ⟨own, lines, spaced, -⟩ := tidied placed
    rwa [split_ownLeading lines]
  · intro first found
    rw [List.head?_eq_getElem?] at found
    obtain ⟨own, lines, -, starts, -⟩ := tidied found
    rw [split_ownLeading lines]
    exact starts rfl
  · rintro rfl position place old new previous moves moved behind ends
    exact blankLines_pos_list options source fallback distinct sorts moves moved
      behind ends
  · intro position place old new moves stays
    exact blankLines_list_le options source fallback kind distinct sorts moves stays

end Sorted

/-- What becomes of the items of a list inside of them does not matter. -/
theorem Padded.map {kind : ListKind} {before after : List Node} {change : Node → Node}
    (inner : IsInner change) (padded : Padded kind before after) :
    Padded kind before (after.map change) := by
  have found {place : Nat} {item : Node}
      (placed : (after.map change)[place]? = some item) :
      ∃ node, after[place]? = some node ∧ change node = item := by
    simpa using placed
  have first {item : Node} (placed : item ∈ (after.map change).head?) :
      ∃ node ∈ after.head?, change node = item := by
    simpa using placed
  have leading (node : Node) : (change node).leading = node.leading := by
    simp [Node.leading, inner.info]
  have own (header : Text) (place : Nat) (node : Node) :
      ownLeading header place (change node) = ownLeading header place node := by
    simp [ownLeading, leading]
  have origin {position place : Nat} {old item : Node}
      (moves : Moves before (after.map change) position place old item) :
      ∃ node, Moves before after position place old node ∧ change node = item := by
    obtain ⟨node, stands, rfl⟩ := found moves.stands
    refine ⟨node, ⟨moves.stood, stands, ?_⟩, rfl⟩
    simpa [Node.id, inner.info] using moves.same
  constructor
  · have ids : (after.map change).map Node.id = after.map Node.id := by
      simp [Node.id, inner.info]
    rw [ids]
    exact padded.permuted
  · intro item placed
    obtain ⟨node, starts, rfl⟩ := first placed
    rw [leading, own]
    exact padded.front node starts
  · intro place item placed
    obtain ⟨node, stands, rfl⟩ := found placed
    rw [own]
    exact padded.spaced place node stands
  · intro item placed
    obtain ⟨node, starts, rfl⟩ := first placed
    rw [own]
    exact padded.starts node starts
  · intro members position place old item previous moves moved behind ends
    obtain ⟨node, comes, rfl⟩ := origin moves
    obtain ⟨neighbour, before, rfl⟩ := found behind
    have trailing : (change neighbour).trailing = neighbour.trailing := by
      simp [Node.trailing, inner.info]
    rw [trailing] at ends
    rw [leading]
    exact padded.setOff members position place old node neighbour comes moved
      before ends
  · intro position place old item moves stays
    obtain ⟨node, comes, rfl⟩ := origin moves
    rw [own]
    exact padded.fewer position place old node comes stays

end Arrange

open Arrange (Listing)

namespace Tree

/-- Reorganizing a parsed file succeeds, and every list of it that is sorted is padded:
the header is kept, and the blank lines behind it are tidy. -/
theorem reorganize_parse_padded (options : Options) (source : Text) :
    ∃ after report, (parse source).reorganize? options = some (after, report)
      ∧ List.Forall₂ (fun node other => other.id = node.id
          ∧ List.Forall₂ (fun old new : Listing => new.kind = old.kind
              ∧ (old.Sorts → Arrange.Padded old.kind old.items new.items))
            node.listings other.listings)
        (parse source).nodes after.nodes := by
  refine ⟨_, _, reorganize?_parse options source, ?_⟩
  have distinct : ∀ node ∈ (parse source).nodes, ∀ listing ∈ node.listings,
      (listing.items.map Node.id).Nodup := fun node member listing owned =>
    nodup_items_parse (List.mem_flatMap.mpr ⟨node, member, owned⟩)
  apply ((List.forall₂_and_left _ _).mpr ⟨distinct, nodes_becomes options source⟩).imp
  rintro node other ⟨distinct, becomes⟩
  refine ⟨becomes.id, ?_⟩
  apply ((List.forall₂_and_left _ _).mpr ⟨distinct, becomes.listings⟩).imp
  rintro old new ⟨distinct, becomes⟩
  refine ⟨becomes.kind, fun sorts => ?_⟩
  rw [becomes.items]
  exact (Arrange.padded_list options source _ _ distinct (old.sorts_iff.mp sorts)).map
    (Node.reorganize_isInner options source)

end Tree

end Lineup
