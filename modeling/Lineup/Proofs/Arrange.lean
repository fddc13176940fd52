import Lineup.Proofs.Sort
import Lineup.Proofs.Trivia
import Lineup.Reorganize

/-!
# Rearranging a list

What happens to the items of one list. Rearranging looks at the items from outside only,
so it does not matter whether the lists inside the items are rearranged before or after.
The items of a list that is sorted keep their own lines of trivia, the header stays in
front, and at most one line end moves, from the item that becomes the last one to the
item that was the last one.
-/

namespace Lineup

@[simp] theorem Node.info_withLeading (node : Node) (leading : Text) :
    (node.withLeading leading).info = { node.info with leading } := by
  cases node; rfl

@[simp] theorem Node.info_withTrailing (node : Node) (trailing : Text) :
    (node.withTrailing trailing).info = { node.info with trailing } := by
  cases node; rfl

theorem Node.leading_withLeading (node : Node) (leading : Text) :
    (node.withLeading leading).leading = leading := by
  cases node; rfl

@[simp] theorem Node.segments_withLeading (node : Node) (leading : Text) :
    (node.withLeading leading).segments = node.segments := by
  cases node; rfl

@[simp] theorem Node.segments_withTrailing (node : Node) (trailing : Text) :
    (node.withTrailing trailing).segments = node.segments := by
  cases node; rfl

namespace Arrange

/-- A change inside of nodes: it keeps what a node carries, and goes along with changes
of the trivia around the node. -/
structure IsInner (change : Node → Node) : Prop where
  info : ∀ node, (change node).info = node.info
  withLeading : ∀ node leading,
    change (node.withLeading leading) = (change node).withLeading leading
  withTrailing : ∀ node trailing,
    change (node.withTrailing trailing) = (change node).withTrailing trailing

/-- The entry with a change of its node. -/
def Entry.over (change : Node → Node) (entry : Entry) : Entry :=
  { entry with node := change entry.node }

/-- The entries of a list in their new order. -/
def order (options : Options) (source : Text) (fallback : AccessLevel) (kind : ListKind)
    (entries : List Entry) : List Entry :=
  match kind with
  | .directives =>
      sortEntries (Directive.classify source) options.directives.compare entries
  | .members => sortEntries (Member.classify fallback) options.members.compare entries

/-- The entries after a line end was moved, if any item was. -/
def settle (sorted : List Entry) : List Entry :=
  if countMoved 0 sorted = 0 then sorted else moveFinalLineEnd sorted

/-- Whether a list of this kind sets off its moved items by blank lines. -/
def separates : ListKind → Bool
  | .directives => false
  | .members => true

/-- The items of a list in their new order. -/
theorem list_fst (options : Options) (source : Text) (fallback : AccessLevel)
    (kind : ListKind) (items : List Node) :
    (list options source fallback kind items).1 =
      if items.length < 2 ∨ isReorderable (entries items).2 = false then items
      else pad (separates kind) (entries items).1
        (settle (order options source fallback kind (entries items).2)) := by
  simp only [list]
  by_cases short : items.length < 2
  · simp [short]
  by_cases reorderable : isReorderable (entries items).2
  · have sorts : ¬ (items.length < 2 ∨ isReorderable (entries items).2 = false) := by
      simp [short, reorderable]
    rw [if_neg sorts]
    simp only [if_neg short, reorderable, Bool.not_true, Bool.false_eq_true, if_false]
    cases kind with
    | directives => rfl
    | members => rfl
  · simp [short, reorderable]

/-- Sorting looks at what the nodes declare only. -/
theorem sortEntries_map {κ : Type} {change : Node → Node} (key : Node → κ)
    (cmp : κ → κ → Ordering) (same : ∀ node, key (change node) = key node)
    (entries : List Entry) :
    sortEntries key cmp (entries.map (.over change))
      = (sortEntries key cmp entries).map (.over change) := by
  have keyed : (entries.map (Entry.over change)).map
      (fun entry => (key entry.node, entry))
      = (entries.map fun entry => (key entry.node, entry)).map
        (Prod.map id (Entry.over change)) := by
    simp [Entry.over, same]
  have sorted (keyed : List (κ × Entry)) :
      sortBy (fun left right => cmp left.1 right.1 != .gt)
          (keyed.map (Prod.map id (Entry.over change)))
        = (sortBy (fun left right => cmp left.1 right.1 != .gt) keyed).map
          (Prod.map id (Entry.over change)) :=
    sortBy_map (fun _ _ => rfl) keyed
  simp only [sortEntries]
  rw [keyed, sorted]
  simp [Function.comp_def]

theorem isReorderable_map (change : Node → Node) (entries : List Entry) :
    isReorderable (entries.map (.over change)) = isReorderable entries := by
  simp [isReorderable, Entry.over, Function.comp_def]

theorem countMoved_map (change : Node → Node) (place : Nat) (entries : List Entry) :
    countMoved place (entries.map (.over change)) = countMoved place entries := by
  induction entries generalizing place with
  | nil => rfl
  | cons entry entries ih => simp [countMoved, ih, Entry.over]

namespace IsInner

variable {change : Node → Node} (inner : IsInner change)

include inner

theorem entriesFrom (position : Nat) (items : List Node) :
    entriesFrom position (items.map change)
      = (entriesFrom position items).map (.over change) := by
  induction items generalizing position with
  | nil => rfl
  | cons item items ih =>
      simp [Arrange.entriesFrom, ih, Entry.over, Node.leading, inner.info]

theorem entries (items : List Node) :
    entries (items.map change)
      = ((entries items).1, (entries items).2.map (.over change)) := by
  cases items with
  | nil => rfl
  | cons item items =>
      simp [Arrange.entries, inner.entriesFrom, Entry.over, Node.leading, inner.info]

theorem order (options : Options) (source : Text) (fallback : AccessLevel)
    (kind : ListKind) (entries : List Entry) :
    order options source fallback kind (entries.map (.over change))
      = (order options source fallback kind entries).map (.over change) := by
  cases kind with
  | directives =>
      refine sortEntries_map _ _ (fun node => ?_) entries
      simp [Directive.classify, Node.head, inner.info]
  | members =>
      refine sortEntries_map _ _ (fun node => ?_) entries
      simp [Member.classify, Node.head, Node.kind, inner.info]

theorem moveFinalLineEnd (sorted : List Entry) :
    moveFinalLineEnd (sorted.map (.over change))
      = (moveFinalLineEnd sorted).map (.over change) := by
  have trailing (entry : Entry) : (entry.over change).node.trailing
      = entry.node.trailing := by
    simp [Entry.over, Node.trailing, inner.info]
  have found : (sorted.map (Entry.over change)).find?
        (fun entry => entry.position == (sorted.map (Entry.over change)).length - 1)
      = (sorted.find? fun entry => entry.position == sorted.length - 1).map
        (Entry.over change) := by
    rw [List.find?_map, List.length_map]
    rfl
  simp only [Arrange.moveFinalLineEnd, found, List.getLast?_map]
  cases sorted.find? (fun entry => entry.position == sorted.length - 1) with
  | none => rfl
  | some old =>
      cases sorted.getLast? with
      | none => rfl
      | some new =>
          simp only [Option.map_some, List.length_map, trailing, List.map_map,
            apply_ite (List.map (Entry.over change)), Function.comp_def]
          congr 1
          refine List.map_congr_left fun entry _ => ?_
          rw [apply_ite (Entry.over change), apply_ite (Entry.over change)]
          simp only [Entry.over, inner.withTrailing]
          rfl

theorem padFrom (separateMoved : Bool) (previous : Text) (place : Nat)
    (entries : List Entry) :
    padFrom separateMoved previous place (entries.map (.over change))
      = (padFrom separateMoved previous place entries).map change := by
  induction entries generalizing previous place with
  | nil => rfl
  | cons entry entries ih =>
      simp [Arrange.padFrom, ih, Entry.over, inner.withLeading, laterLeading,
        Node.trailing, inner.info]

theorem pad (separateMoved : Bool) (header : List TriviaLine) (entries : List Entry) :
    pad separateMoved header (entries.map (.over change))
      = (pad separateMoved header entries).map change := by
  cases entries with
  | nil => rfl
  | cons entry entries =>
      simp [Arrange.pad, inner.padFrom, Entry.over, inner.withLeading, firstLeading,
        Node.trailing, inner.info]

/-- Rearranging a list goes along with changes inside of its items. -/
theorem list (options : Options) (source : Text) (fallback : AccessLevel)
    (kind : ListKind) (items : List Node) :
    (list options source fallback kind (items.map change)).1
      = (list options source fallback kind items).1.map change := by
  simp only [list_fst, List.length_map, inner.entries, isReorderable_map, inner.order,
    settle, countMoved_map, inner.moveFinalLineEnd, apply_ite (List.map change)]
  rw [← inner.pad, apply_ite (List.map (Entry.over change))]

end IsInner

theorem sortEntries_perm {κ : Type} (key : Node → κ) (cmp : κ → κ → Ordering)
    (entries : List Entry) : (sortEntries key cmp entries).Perm entries := by
  have sorted := (sortBy_perm (fun left right => cmp left.1 right.1 != .gt)
    (entries.map fun entry => (key entry.node, entry))).map Prod.snd
  simpa [sortEntries, Function.comp_def] using sorted

theorem order_perm (options : Options) (source : Text) (fallback : AccessLevel)
    (kind : ListKind) (entries : List Entry) :
    (order options source fallback kind entries).Perm entries := by
  cases kind with
  | directives => exact sortEntries_perm _ _ _
  | members => exact sortEntries_perm _ _ _

theorem entriesFrom_positions (position : Nat) (items : List Node) :
    (entriesFrom position items).map Entry.position
      = List.range' position items.length := by
  induction items generalizing position with
  | nil => rfl
  | cons item items ih => simp [entriesFrom, ih, List.range'_succ]

/-- Entries are numbered by their places. -/
theorem entries_positions (items : List Node) :
    (entries items).2.map Entry.position = List.range items.length := by
  cases items with
  | nil => rfl
  | cons item items =>
      simp [entries, entriesFrom_positions, List.range_eq_range', List.range'_succ]

theorem entriesFrom_nodes (position : Nat) (items : List Node) :
    (entriesFrom position items).map Entry.node = items := by
  induction items generalizing position with
  | nil => rfl
  | cons item items ih => simp [entriesFrom, ih]

theorem entries_nodes (items : List Node) :
    (entries items).2.map Entry.node = items := by
  cases items with
  | nil => rfl
  | cons item items => simp [entries, entriesFrom_nodes]

theorem entries_length (items : List Node) :
    (entries items).2.length = items.length := by
  have size := congrArg List.length (entries_nodes items)
  rwa [List.length_map] at size

/-- Nothing moves when all entries are at their places. -/
theorem countMoved_eq_zero_iff {entries : List Entry} {place : Nat} :
    countMoved place entries = 0
      ↔ entries.map Entry.position = List.range' place entries.length := by
  induction entries generalizing place with
  | nil => simp [countMoved]
  | cons entry entries ih => simp [countMoved, ih, List.range'_succ]

/-- Nothing moves exactly when the order is the one from before. -/
theorem countMoved_perm_iff {items : List Node} {sorted : List Entry}
    (perm : sorted.Perm (entries items).2) :
    countMoved 0 sorted = 0 ↔ sorted = (entries items).2 := by
  have size : sorted.length = items.length :=
    perm.length_eq.trans (entries_length items)
  rw [countMoved_eq_zero_iff, ← List.range_eq_range', size]
  constructor
  · intro placed
    -- Entries that stand in the order of their places are determined by their places.
    have rising {entries : List Entry}
        (placed : entries.map Entry.position = List.range items.length) :
        entries.Pairwise fun first second => first.position < second.position := by
      rw [← List.pairwise_map, placed]
      exact List.pairwise_lt_range
    refine List.Perm.eq_of_pairwise (fun first second _ _ less more => ?_)
      (rising placed) (rising (entries_positions items)) perm
    omega
  · intro same
    rw [same, entries_positions]

/-- What becomes of an entry that comes to stand at `place`: only its trailing trivia
changes, by a line end that the entry at the last place gives to the entry that was
there before. -/
structure Settled (lineEnd : Text) (last place : Nat) (entry settled : Entry) :
    Prop where
  position : settled.position = entry.position
  lines : settled.lines = entry.lines
  node : ∃ trailing, settled.node = entry.node.withTrailing trailing ∧
    trailing ++ (if place = last ∧ entry.position ≠ last then lineEnd else [])
      = entry.node.trailing
        ++ (if entry.position = last ∧ place ≠ last then lineEnd else [])

/-- The line end that is moved when a list is put in the given order, empty if none
is. -/
def movedLineEnd (sorted : List Entry) : Text :=
  match sorted.find? (fun entry => entry.position == sorted.length - 1),
    sorted.getLast? with
  | some old, some new =>
      if countMoved 0 sorted = 0 || new.position == sorted.length - 1
          || !old.node.trailing.lineEnd.isEmpty then []
      else new.node.trailing.lineEnd
  | _, _ => []

theorem movedLineEnd_mem (sorted : List Entry) : movedLineEnd sorted ∈ lineEnds := by
  simp only [movedLineEnd]
  split
  · split
    · simp [lineEnds]
    · exact Text.lineEnd_mem _
  · simp [lineEnds]

theorem Settled.refl {lineEnd : Text} (empty : lineEnd = []) (last place : Nat)
    (entry : Entry) :
    Settled lineEnd last place entry entry := by
  refine ⟨rfl, rfl, entry.node.trailing, ?_, ?_⟩
  · cases entry.node
    rfl
  · simp [empty]

/-- The entry after the line end went from the entry with position `new` to the one with
position `old`. -/
def Entry.handOver (lineEnd : Text) (old new : Nat) (entry : Entry) : Entry :=
  if entry.position == old then
    { entry with node := entry.node.withTrailing (entry.node.trailing ++ lineEnd) }
  else if entry.position == new then
    { entry with
      node := entry.node.withTrailing (entry.node.trailing.dropEnding lineEnd) }
  else entry

/-- Settling the entries changes nothing, or it moves the line end of the last entry. -/
theorem settle_cases (sorted : List Entry) :
    settle sorted = sorted ∧ movedLineEnd sorted = [] ∨
      ∃ new, sorted.getLast? = some new ∧ new.position ≠ sorted.length - 1
        ∧ movedLineEnd sorted = new.node.trailing.lineEnd
        ∧ settle sorted = sorted.map
          (.handOver new.node.trailing.lineEnd (sorted.length - 1) new.position) := by
  simp only [settle, movedLineEnd, moveFinalLineEnd]
  by_cases still : countMoved 0 sorted = 0
  · left
    rw [if_pos still]
    refine ⟨rfl, ?_⟩
    split
    · simp [still]
    · rfl
  simp only [still, if_false, decide_false, Bool.false_or]
  cases sorted.find? (fun entry => entry.position == sorted.length - 1) with
  | none => exact .inl ⟨rfl, rfl⟩
  | some old =>
      cases sorted.getLast? with
      | none => exact .inl ⟨rfl, rfl⟩
      | some new =>
          dsimp only
          cases stays : (new.position == sorted.length - 1
            || !old.node.trailing.lineEnd.isEmpty) with
          | true => exact .inl ⟨rfl, rfl⟩
          | false =>
              cases empty : new.node.trailing.lineEnd.isEmpty with
              | true => exact .inl ⟨rfl, List.isEmpty_iff.mp empty⟩
              | false =>
                  rw [Bool.or_eq_false_iff] at stays
                  exact .inr ⟨new, rfl, by simpa using stays.1, rfl, rfl⟩

/-- Settling the entries keeps what they stand for, and their lines. -/
theorem mem_settle {sorted : List Entry} {settled : Entry}
    (member : settled ∈ settle sorted) :
    ∃ entry ∈ sorted, settled.position = entry.position ∧ settled.lines = entry.lines
      ∧ settled.node.id = entry.node.id := by
  rcases settle_cases sorted with ⟨same, -⟩ | ⟨new, -, -, -, handed⟩
  · rw [same] at member
    exact ⟨settled, member, rfl, rfl, rfl⟩
  · rw [handed, List.mem_map] at member
    obtain ⟨entry, listed, rfl⟩ := member
    refine ⟨entry, listed, ?_⟩
    rw [Entry.handOver]
    split
    · simp [Node.id]
    split
    · simp [Node.id]
    · exact ⟨rfl, rfl, rfl⟩

/-- Settling the entries changes the trailing trivia of two of them at most. -/
theorem settle_settled {sorted : List Entry}
    (distinct : (sorted.map Entry.position).Nodup) {place : Nat} {entry : Entry}
    (found : sorted[place]? = some entry) :
    ∃ settled, (settle sorted)[place]? = some settled
      ∧ Settled (movedLineEnd sorted) (sorted.length - 1) place entry settled := by
  rcases settle_cases sorted with ⟨same, ends⟩ | ⟨new, final, moved, lineEnd, settled⟩
  · rw [same]
    exact ⟨entry, found, .refl ends _ _ _⟩
  rw [settled, lineEnd, List.getElem?_map, found]
  refine ⟨_, rfl, ?_⟩
  rw [List.getLast?_eq_getElem?] at final
  -- Only the entry at the last place has the position of that entry.
  have atLast : place = sorted.length - 1 ↔ entry.position = new.position := by
    constructor
    · rintro rfl
      rw [found] at final
      rw [Option.some.inj final]
    · intro same
      have inside : place < (sorted.map Entry.position).length := by
        simpa using (List.getElem?_eq_some_iff.mp found).1
      exact (List.getElem?_inj inside distinct).mp (by simp [found, final, same])
  rw [Entry.handOver]
  by_cases wasLast : entry.position = sorted.length - 1
  · have elsewhere : place ≠ sorted.length - 1 := fun here =>
      moved ((atLast.mp here).symm.trans wasLast)
    rw [if_pos (by simpa using wasLast)]
    exact ⟨rfl, rfl, _, rfl, by simp [wasLast, elsewhere]⟩
  rw [if_neg (by simpa using wasLast)]
  by_cases isLast : entry.position = new.position
  · rw [if_pos (by simpa using isLast)]
    have same : entry = new := by
      rw [atLast.mpr isLast, final] at found
      exact (Option.some.inj found).symm
    exact ⟨rfl, rfl, _, rfl,
      by simp [atLast.mpr isLast, moved, same, Text.dropEnding_lineEnd]⟩
  · rw [if_neg (by simpa using isLast)]
    refine ⟨rfl, rfl, entry.node.trailing, ?_, ?_⟩
    · cases entry.node
      rfl
    · simp [mt atLast.mp isLast, wasLast]

/-- The leading trivia that an entry gets at a place. -/
inductive Leads (separateMoved : Bool) (header : List TriviaLine) (entry : Entry) :
    Nat → Text → Prop where
  | first : Leads separateMoved header entry 0 (firstLeading header entry)
  | later (place : Nat) (previous : Text) : Leads separateMoved header entry (place + 1)
      (laterLeading separateMoved previous (place + 1) entry)

theorem padFrom_getElem? {separateMoved : Bool} (header : List TriviaLine)
    (previous : Text) (start : Nat) {place : Nat} {entries : List Entry} {entry : Entry}
    (found : entries[place]? = some entry) :
    ∃ leading, (padFrom separateMoved previous (start + 1) entries)[place]?
        = some (entry.node.withLeading leading)
      ∧ Leads separateMoved header entry (start + 1 + place) leading := by
  induction entries generalizing previous start place with
  | nil => cases found
  | cons first entries ih =>
      cases place with
      | zero =>
          cases found
          exact ⟨_, rfl, .later start previous⟩
      | succ place =>
          obtain ⟨leading, padded, leads⟩ := ih first.node.trailing (start + 1) found
          refine ⟨leading, padded, ?_⟩
          rwa [Nat.add_right_comm] at leads

/-- Padding changes the leading trivia only. -/
theorem pad_getElem? {separateMoved : Bool} {header : List TriviaLine} {place : Nat}
    {entries : List Entry} {entry : Entry} (found : entries[place]? = some entry) :
    ∃ leading, (pad separateMoved header entries)[place]?
      = some (entry.node.withLeading leading)
      ∧ Leads separateMoved header entry place leading := by
  cases entries with
  | nil => cases found
  | cons first entries =>
      cases place with
      | zero =>
          cases found
          exact ⟨_, rfl, .first⟩
      | succ place =>
          have found : entries[place]? = some entry := found
          obtain ⟨leading, padded, leads⟩ :=
            padFrom_getElem? header first.node.trailing 0 found
          refine ⟨leading, padded, ?_⟩
          rwa [Nat.zero_add, Nat.add_comm] at leads

theorem getElem?_padFrom_succ {separateMoved : Bool} {before : Text} {start place : Nat}
    {entries : List Entry} {previous : Node}
    (found : (padFrom separateMoved before start entries)[place]? = some previous) :
    (padFrom separateMoved before start entries)[place + 1]?
      = entries[place + 1]?.map fun entry =>
      entry.node.withLeading
        (laterLeading separateMoved previous.trailing (start + place + 1) entry) := by
  induction entries generalizing before start place with
  | nil => cases found
  | cons first entries ih =>
      cases place with
      | zero =>
          obtain rfl := Option.some.inj found
          cases entries with
          | nil => rfl
          | cons second entries => simp [padFrom, Node.trailing]
      | succ place =>
          have found :
              (padFrom separateMoved first.node.trailing (start + 1) entries)[place]?
              = some previous := found
          have later := ih found
          rwa [Nat.add_right_comm start 1] at later

/-- An item other than the first one is padded with regard to the item in front of
it. -/
theorem getElem?_pad_succ {separateMoved : Bool} {header : List TriviaLine}
    {place : Nat} {entries : List Entry} {previous : Node}
    (found : (pad separateMoved header entries)[place]? = some previous) :
    (pad separateMoved header entries)[place + 1]?
      = entries[place + 1]?.map fun entry =>
      entry.node.withLeading
        (laterLeading separateMoved previous.trailing (place + 1) entry) := by
  cases entries with
  | nil => cases found
  | cons first entries =>
      cases place with
      | zero =>
          obtain rfl := Option.some.inj found
          cases entries with
          | nil => rfl
          | cons second entries => simp [pad, padFrom, Node.trailing]
      | succ place =>
          have found : (padFrom separateMoved first.node.trailing 1 entries)[place]?
              = some previous := found
          have later := getElem?_padFrom_succ found
          rwa [Nat.add_comm 1] at later

open TriviaLine (Lines Spaced Starts contents)

theorem entriesFrom_lines (position : Nat) (items : List Node) :
    ∀ entry ∈ entriesFrom position items, ∃ tokens, Lines entry.lines tokens := by
  induction items generalizing position with
  | nil => simp [entriesFrom]
  | cons item items ih =>
      intro entry member
      rcases List.mem_cons.mp member with rfl | member
      · exact ⟨_, TriviaLine.lines_split item.leading⟩
      · exact ih (position + 1) entry member

theorem entries_lines (items : List Node) :
    ∀ entry ∈ (entries items).2, ∃ tokens, Lines entry.lines tokens := by
  cases items with
  | nil => simp [entries]
  | cons item items =>
      intro entry member
      rcases List.mem_cons.mp member with rfl | member
      · have made := TriviaLine.lines_split item.leading
        exact made.suffix ⟨(TriviaLine.splitHeader _).1,
          TriviaLine.splitHeader_append _⟩
      · exact entriesFrom_lines 1 items entry member

/-- The header of a list can stand in front of other lines. -/
theorem header_lines (items : List Node) :
    (∃ more tokens, Lines ((entries items).1 ++ more) tokens)
    ∧ ∀ line ∈ (entries items).1, line.isComplete = true := by
  cases items with
  | nil => exact ⟨⟨[], [], .nil⟩, by simp [entries]⟩
  | cons item items =>
      have made := TriviaLine.lines_split item.leading
      refine ⟨⟨(TriviaLine.splitHeader (TriviaLine.split item.leading)).2,
        Token.lex item.leading, ?_⟩, made.splitHeader_complete⟩
      simp only [entries, TriviaLine.splitHeader_append]
      exact made

/-- The lines of the leading trivia of the first item: the header, and then its own. -/
theorem split_firstLeading (items : List Node) {entry : Entry} {tokens : List Token}
    (made : Lines entry.lines tokens) :
    TriviaLine.split (firstLeading (entries items).1 entry)
      = (entries items).1
        ++ TriviaLine.dropBlank (TriviaLine.collapse entry.lines) := by
  obtain ⟨⟨more, front, header⟩, complete⟩ := header_lines items
  obtain ⟨kept, collapsed⟩ := made.collapseFrom false
  obtain ⟨rest, dropped⟩ := collapsed.dropBlank
  obtain ⟨all, lines⟩ := header.before complete dropped collapsed.head?_dropBlank
  rw [firstLeading, ← TriviaLine.joined_append, TriviaLine.collapse, lines.split_joined]

/-- An item that was moved is set off by a blank line: it has none in front of it, and a
line ends behind the item before it. -/
def SetOff (separateMoved : Bool) (previous : Text) (place : Nat) (entry : Entry) :
    Prop :=
  separateMoved = true ∧ entry.position ≠ place
    ∧ (∀ line ∈ TriviaLine.collapse entry.lines, line.isBlank = false)
    ∧ previous.lineEnd ≠ []

instance (separateMoved : Bool) (previous : Text) (place : Nat) (entry : Entry) :
    Decidable (SetOff separateMoved previous place entry) :=
  inferInstanceAs (Decidable (_ ∧ _ ∧ _ ∧ _))

/-- The lines of the leading trivia of an item that is not the first one: its own, and a
blank line in front of them if the item is set off. -/
theorem split_laterLeading {separateMoved : Bool} {previous : Text} {place : Nat}
    {entry : Entry} {tokens : List Token} (made : Lines entry.lines tokens) :
    TriviaLine.split (laterLeading separateMoved previous place entry)
      = (if SetOff separateMoved previous place entry then
          [(TriviaLine.ofTokens []).complete previous.lineEnd] else [])
        ++ TriviaLine.collapse entry.lines := by
  obtain ⟨kept, collapsed⟩ := made.collapseFrom false
  rw [← TriviaLine.collapse] at collapsed
  by_cases setOff : SetOff separateMoved previous place entry
  · obtain ⟨separates, moved, solid, ends⟩ := setOff
    have starts : Starts (TriviaLine.collapse entry.lines) := fun line first =>
      solid line (List.mem_of_mem_head? first)
    obtain ⟨all, lines⟩ := collapsed.lineEnd_before previous.lineEnd_mem ends
      (collapsed.head?_of_starts starts)
    have padded : laterLeading separateMoved previous place entry
        = previous.lineEnd ++ TriviaLine.joined (TriviaLine.collapse entry.lines) :=
      if_pos (by simpa [separates, moved] using solid)
    rw [padded, if_pos ⟨separates, moved, solid, ends⟩]
    exact lines.split_joined
  · have same : laterLeading separateMoved previous place entry
        = TriviaLine.joined (TriviaLine.collapse entry.lines) := by
      rw [laterLeading]
      split
      · rename_i asked
        simp only [Bool.and_eq_true, bne_iff_ne, Bool.not_eq_true', List.any_eq_false,
          Bool.not_eq_true] at asked
        have ended : previous.lineEnd = [] := by
          by_contra ends
          exact setOff ⟨asked.1.1, asked.1.2, asked.2, ends⟩
        rw [ended, List.nil_append]
      · rfl
    rw [same, if_neg setOff, collapsed.split_joined, List.nil_append]

/-- The lines of the leading trivia of an item: at the first place the header, and then
the lines of the item with some blank lines taken away or put in. -/
theorem Leads.split {separateMoved : Bool} {items : List Node} {entry : Entry}
    {place : Nat} {leading : Text}
    (leads : Leads separateMoved (entries items).1 entry place leading)
    {tokens : List Token} (made : Lines entry.lines tokens) :
    ∃ own, TriviaLine.split leading
      = (if place = 0 then (entries items).1 else []) ++ own
      ∧ contents own = contents entry.lines ∧ Spaced own
      ∧ (place = 0 → Starts own) := by
  have same : contents (TriviaLine.collapse entry.lines) = contents entry.lines :=
    TriviaLine.contents_collapseFrom false entry.lines
  have spaced := TriviaLine.spaced_collapse entry.lines
  cases leads with
  | first =>
      refine ⟨_, ?_, (TriviaLine.contents_dropBlank _).trans same,
        spaced.suffix (List.dropWhile_suffix _), fun _ => TriviaLine.starts_dropBlank _⟩
      rw [if_pos rfl, split_firstLeading items made]
  | later place previous =>
      rw [if_neg (Nat.succ_ne_zero place), split_laterLeading made]
      split
      · rename_i setOff
        refine ⟨_, rfl, same,
          List.isChain_cons.mpr ⟨fun next first => ?_, spaced⟩, nofun⟩
        rw [setOff.2.2.1 next (List.mem_of_mem_head? first), Bool.and_false]
      · exact ⟨_, rfl, same, spaced, nofun⟩

end Arrange

end Lineup
