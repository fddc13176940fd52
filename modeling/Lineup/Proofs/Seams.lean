import Lineup.Proofs.Movable
import Lineup.Proofs.Rearrangement
import Lineup.Proofs.Sections

/-!
# The seams of a rearranged list

When the items of a list move, two of them come to stand in front of text for which they
were not made: the item that was the last one, which may have no line end behind it or
may not be finished, and the item that becomes the last one, whose line end may have
been taken away. All other items end with a token that stands in front of everything. So
the tokens of the items are read back from the rearranged list exactly when these two
seams hold.
-/

namespace Lineup

namespace Arrange

/-- Whether the item that was last in a list, and the item that becomes the last one,
are separate from the text that comes to stand behind them, when the text `behind`
follows the list. -/
def seamsHold (options : Options) (source : Text) (fallback : AccessLevel)
    (kind : ListKind) (items : List Node) (behind : Text) : Bool :=
  let sorted := order options source fallback kind (entries items).2
  let after := (list options source fallback kind items).1
  let last := items.length - 1
  let place := sorted.findIdx fun entry => entry.position == last
  items.length < 2 || !isReorderable (entries items).2 || countMoved 0 sorted == 0
    || (Token.areSeparate (Node.printAll (items.drop last))
          (movedLineEnd sorted ++ (Node.printAll (after.drop (place + 1)) ++ behind))
        && Token.areSeparate (Node.printAll (after.drop last)) behind)

end Arrange

mutual

/-- Whether the seams of all lists of a node hold, when the text `behind` follows its
body. -/
def Node.seamsHold (options : Options) (source : Text) (behind : Text) : Node → Bool
  | .mk info segments =>
      Segment.seamsHoldAll options source (AccessLevel.default info.kind) behind
        segments

/-- Whether the seams of all lists of a segment hold, when the text `behind` follows it.
What follows an item of a list is a matter of the seams of that list. -/
def Segment.seamsHold (options : Options) (source : Text) (fallback : AccessLevel)
    (behind : Text) : Segment → Bool
  | .text _ => true
  | .node child => child.seamsHold options source (child.trailing ++ behind)
  | .list kind items =>
      Node.seamsHoldAll options source items
        && Arrange.seamsHold options source fallback kind
          (Node.reorganizeAll options source items).1 behind

/-- Whether the seams of all lists of consecutive segments hold. -/
def Segment.seamsHoldAll (options : Options) (source : Text) (fallback : AccessLevel)
    (behind : Text) : List Segment → Bool
  | [] => true
  | segment :: segments =>
      segment.seamsHold options source fallback
          (Segment.printAll (Segment.reorganizeAll options source fallback segments).1
            ++ behind)
        && Segment.seamsHoldAll options source fallback behind segments

/-- Whether the seams of all lists inside of consecutive items hold. -/
def Node.seamsHoldAll (options : Options) (source : Text) : List Node → Bool
  | [] => true
  | node :: nodes =>
      node.seamsHold options source [] && Node.seamsHoldAll options source nodes

end

namespace Arrange

open Token (Run Stands Free Plain Replaces Follows joined content)

/-- The tokens of an item in the source text: its leading trivia, its own tokens and its
trailing trivia, and the tokens that its own ones become when the lists inside of it are
rearranged. -/
structure Group where
  lead : List Token
  core : List Token
  inner : List Token
  trail : List Token

namespace Group

/-- The tokens of the item as they stand in the source text. -/
def source (group : Group) : List Token :=
  group.lead ++ (group.core ++ group.trail)

/-- The tokens of consecutive items as they stand in the source text. -/
def sources (groups : List Group) : List Token :=
  groups.flatMap source

/-- The item ends with a bracket or a semicolon. -/
inductive Closed (group : Group) : Prop where
  | intro (core inner : List Token) {final : Token}
        (ends : group.core = core ++ [final])
      (kept : group.inner = inner ++ [final]) (bracket : final.isBracket = true)

/-- The tokens `new` can stand in front of `group`'s trailing trivia place. -/
inductive Joins (group : Group) (after new : List Token) : Prop where
  | replaces (replaces : Replaces (group.trail ++ after) new)
  | closed (closed : group.Closed) (plain : Plain new)
      (follows : Follows (group.trail ++ after) new)
      (more : ∃ token ∈ after, token.isTrivia = false)

end Group

/-- The tokens that spell a node in the source text, where the tokens `after` follow
them, and what becomes of its own tokens when the lists inside of it are rearranged. -/
structure Spells (options : Options) (source : Text) (after : List Token) (node : Node)
    (group : Group) : Prop where
  leading : node.leading = joined group.lead
  trailing : node.trailing = joined group.trail
  spelled : Segment.printAll node.segments = joined group.core
  printed : Segment.printAll (node.reorganize options source).1.segments
    = joined group.inner
  repeats : Token.Repeats (node.sectionsHold options source = true) group.inner
    group.core
  trivia : ∀ token ∈ group.lead, token.isTrivia = true
  starts : ∃ first core inner, group.core = first :: core ∧ group.inner = first :: inner
    ∧ first.isTrivia = false
  trails : group.trail = [] ∨ Span.trailing (group.trail ++ after) = group.trail.length
  plain : Plain (group.source ++ after)
  kept : Plain group.inner
  run : ∃ lineStart, Run lineStart (group.source ++ after) []
  seams : ∀ new, group.Joins after new →
    (node.seamsHold options source (joined new) = true
      ↔ Stands true (group.inner ++ new) [])
  replaces : ∀ new, group.Joins after new → Stands true (group.inner ++ new) [] →
    Replaces (group.core ++ (group.trail ++ after)) (group.inner ++ new)

/-- The tokens of an item of a rearranged list. -/
structure Slot where
  lead : List Token
  inner : List Token
  trail : List Token

namespace Slot

/-- The tokens of the item. -/
def tokens (slot : Slot) : List Token :=
  slot.lead ++ (slot.inner ++ slot.trail)

/-- The tokens of consecutive items. -/
def all (slots : List Slot) : List Token :=
  slots.flatMap tokens

@[simp] theorem all_nil : all [] = [] := rfl

@[simp] theorem all_cons (slot : Slot) (slots : List Slot) :
    all (slot :: slots) = slot.tokens ++ all slots := rfl

@[simp] theorem all_append (slots others : List Slot) :
    all (slots ++ others) = all slots ++ all others := List.flatMap_append

/-- The trivia in front of the item is free, and the item starts with a significant
token. -/
structure Sound (slot : Slot) : Prop where
  free : Free slot.lead
  starts : ∃ first rest, slot.inner = first :: rest ∧ first.isTrivia = false
    ∧ first.is "#" = false

/-- The item ends with a bracket or a semicolon, and the trivia behind it is free. -/
structure Closed (slot : Slot) : Prop extends Sound slot where
  ends : ∃ inner final, slot.inner = inner ++ [final] ∧ final.isBracket = true
  trail : Free slot.trail

/-- Whether a sound item stands depends on its own tokens only. -/
theorem Sound.stands_iff {slot : Slot} (sound : slot.Sound) (lineStart : Bool)
    (behind : List Token) :
    Stands lineStart (slot.tokens ++ behind) []
      ↔ Stands true (slot.inner ++ (slot.trail ++ behind)) [] := by
  obtain ⟨first, rest, spelled, starts, plain⟩ := sound.starts
  rw [tokens, List.append_assoc, List.append_assoc, Token.stands_append, spelled,
    List.cons_append]
  constructor
  · intro stands
    exact stands.2.anyLineStart starts plain true
  · intro stands
    exact ⟨sound.free _ _, stands.anyLineStart starts plain _⟩

theorem Closed.stands_iff {slot : Slot} (closed : slot.Closed) {behind : List Token}
    (anywhere : ∀ lineStart other, Stands lineStart behind [] → Stands other behind [])
    (lineStart : Bool) :
    Stands lineStart (slot.tokens ++ behind) []
      ↔ Stands true slot.inner [] ∧ Stands true behind [] := by
  rw [closed.toSound.stands_iff]
  obtain ⟨inner, final, spelled, bracket⟩ := closed.ends
  constructor
  · intro stands
    obtain ⟨own, later⟩ := Token.stands_append.mp stands
    exact ⟨own.cut (.nothing _), anywhere _ _ (Token.stands_append.mp later).2⟩
  · rintro ⟨own, later⟩
    rw [spelled] at own ⊢
    exact Token.stands_append.mpr ⟨own.bracket bracket _,
      Token.stands_append.mpr ⟨closed.trail _ _, anywhere _ _ later⟩⟩

theorem all_stands_iff {slots : List Slot} (closed : ∀ slot ∈ slots, slot.Closed)
    {behind : List Token}
    (anywhere : ∀ lineStart other, Stands lineStart behind [] → Stands other behind [])
    (lineStart : Bool) :
    Stands lineStart (all slots ++ behind) []
      ↔ (∀ slot ∈ slots, Stands true slot.inner []) ∧ Stands true behind [] := by
  induction slots generalizing lineStart with
  | nil =>
      simp only [all_nil, List.nil_append, List.not_mem_nil, false_implies,
        implies_true, true_and]
      exact ⟨anywhere _ _, anywhere _ _⟩
  | cons slot slots ih =>
      have others := ih fun each member => closed each (List.mem_cons_of_mem _ member)
      rw [all_cons, List.append_assoc, (closed slot (by simp)).stands_iff, others,
        List.forall_mem_cons, and_assoc]
      intro first second stands
      exact (others second).mpr ((others first).mp stands)

end Slot

/-- The token of a line end, if there is one. -/
def lineEndTokens (lineEnd : Text) : List Token :=
  if lineEnd = [] then [] else [{ kind := .newline, text := lineEnd, offset := 0 }]

@[simp] theorem joined_lineEndTokens (lineEnd : Text) :
    joined (lineEndTokens lineEnd) = lineEnd := by
  rw [lineEndTokens]
  split
  · rename_i empty
    rw [empty]
    rfl
  · simp

@[simp] theorem content_lineEndTokens (lineEnd : Text) :
    content (lineEndTokens lineEnd) = [] := by
  rw [lineEndTokens]
  split <;> rfl

theorem free_lineEndTokens {lineEnd : Text} (is : lineEnd ∈ lineEnds) :
    Free (lineEndTokens lineEnd) := by
  intro lineStart behind
  rw [lineEndTokens]
  split
  · trivial
  · rename_i present
    refine ⟨.newline rfl ?_, trivial⟩
    simp only [lineEnds, List.mem_cons, List.not_mem_nil, or_false] at is
    rcases is with rfl | rfl | rfl | rfl
    · exact absurd rfl present
    all_goals rfl

theorem plain_lineEndTokens {lineEnd : Text} (is : lineEnd ∈ lineEnds) :
    Plain (lineEndTokens lineEnd) := by
  refine .of_trivia (fun token member => ?_) (free_lineEndTokens is true []).formed
  rw [lineEndTokens] at member
  split at member
  · cases member
  · rw [List.mem_singleton.mp member]
    rfl

/-- The tokens of an entry: those of its lines of trivia, its own and its trailing
trivia. -/
structure Backed (entry : Entry) (group : Group) : Prop where
  printed : Segment.printAll entry.node.segments = joined group.inner
  trailing : entry.node.trailing = joined group.trail
  made : ∃ trivia, TriviaLine.Lines entry.lines trivia
    ∧ content trivia = content group.lead
  free : ∀ line ∈ entry.lines, Free (Token.lex line.text)
  plain : ∀ line ∈ entry.lines, Plain (Token.lex line.text)

/-- The slot that the tokens of an item fill, with tidied trivia in front. -/
structure Fills (group : Group) (slot : Slot) : Prop where
  inner : slot.inner = group.inner
  trail : slot.trail = group.trail
  lead : content slot.lead = content group.lead
  free : Free slot.lead
  plain : Plain slot.lead

theorem plain_tokens {lines : List TriviaLine}
    (plain : ∀ line ∈ lines, Plain (Token.lex line.text)) :
    Plain (TriviaLine.tokens lines) := by
  intro token member
  obtain ⟨line, within, member⟩ := List.mem_flatMap.mp member
  exact plain line within token member

theorem print_withLeading (node : Node) (leading : Text) :
    (node.withLeading leading).print
      = leading ++ (Segment.printAll node.segments ++ node.trailing) := by
  cases node with
  | mk info segments => simp [Node.withLeading, Node.segments, Node.trailing, Node.info]

namespace Backed

variable {entry : Entry} {group : Group}

/-- The lines of an entry, with only blank ones taken away and a line end in front, fill
a slot. -/
theorem fills (backed : Backed entry group) {kept : List TriviaLine} {lineEnd : Text}
    (within : ∀ line ∈ kept, line ∈ entry.lines)
    (same : TriviaLine.contents kept = TriviaLine.contents entry.lines)
    (is : lineEnd ∈ lineEnds) :
    ∃ slot, (entry.node.withLeading (lineEnd ++ TriviaLine.joined kept)).print
      = joined slot.tokens
      ∧ Fills group slot := by
  obtain ⟨trivia, made, said⟩ := backed.made
  refine ⟨⟨lineEndTokens lineEnd ++ TriviaLine.tokens kept, group.inner, group.trail⟩,
    ?_, rfl, rfl, ?_, ?_, ?_⟩
  · simp [print_withLeading, Slot.tokens, backed.printed, backed.trailing]
  · simp [made.content_kept within same, said]
  · exact (free_lineEndTokens is).append
      (TriviaLine.free_tokens fun line member => backed.free line (within line member))
  · exact (plain_lineEndTokens is).append
      (plain_tokens fun line member => backed.plain line (within line member))

/-- Lines without preprocessor lines mark no sections. -/
theorem sections_lead (backed : Backed entry group)
    (noDirective : ∀ line ∈ entry.lines, line.hasDirective = false) :
    Token.sections group.lead = [] := by
  obtain ⟨trivia, made, said⟩ := backed.made
  rw [← Token.sections_congr said]
  exact Token.sections_eq_nil (made.hasDirective_iff.mp noDirective)

end Backed

/-- The slot of an entry whose runs of blank lines are collapsed. -/
theorem Backed.collapse {entry : Entry} {group : Group} (backed : Backed entry group)
    {lineEnd : Text} (is : lineEnd ∈ lineEnds) :
    ∃ slot, (entry.node.withLeading
          (lineEnd ++ TriviaLine.joined (TriviaLine.collapse entry.lines))).print
            = joined slot.tokens
      ∧ Fills group slot :=
  backed.fills (fun _ member => TriviaLine.mem_of_mem_collapseFrom member)
    (TriviaLine.contents_collapseFrom false entry.lines) is

theorem padFrom_slots {entries : List Entry} {groups : List Group}
    (backed : List.Forall₂ Backed entries groups) (separateMoved : Bool)
    (previous : Text) (place : Nat) :
    ∃ slots, List.Forall₂ (fun node slot => Node.print node = joined (Slot.tokens slot))
        (padFrom separateMoved previous place entries) slots
      ∧ List.Forall₂ Fills groups slots := by
  induction backed generalizing previous place with
  | nil => exact ⟨[], .nil, .nil⟩
  | @cons entry group entries groups first _ ih =>
      obtain ⟨slots, printed, fills⟩ := ih entry.node.trailing (place + 1)
      simp only [padFrom, laterLeading]
      split
      · obtain ⟨slot, print, fill⟩ := first.collapse previous.lineEnd_mem
        exact ⟨slot :: slots, .cons print printed, .cons fill fills⟩
      · obtain ⟨slot, print, fill⟩ :=
          first.collapse (by simp [lineEnds] : [] ∈ lineEnds)
        exact ⟨slot :: slots, .cons print printed, .cons fill fills⟩

theorem printAll_slots {nodes : List Node} {slots : List Slot}
    (printed : List.Forall₂
      (fun node slot => Node.print node = joined (Slot.tokens slot)) nodes slots) :
    Node.printAll nodes = joined (Slot.all slots) := by
  induction printed with
  | nil => rfl
  | cons first _ ih => simp [first, ih]

/-- The items of a sorted list print as slots, with the header in front of the first
one. -/
theorem pad_slots {entries : List Entry} {groups : List Group}
    (backed : List.Forall₂ Backed entries groups) (present : entries ≠ [])
    (separateMoved : Bool) (header : List TriviaLine) :
    ∃ slots, List.Forall₂ Fills groups slots
      ∧ Node.printAll (pad separateMoved header entries)
        = TriviaLine.joined header ++ joined (Slot.all slots)
      ∧ ∀ place, Node.printAll ((pad separateMoved header entries).drop (place + 1))
        = joined (Slot.all (slots.drop (place + 1))) := by
  cases backed with
  | nil => exact absurd rfl present
  | @cons entry group entries groups first backed =>
      obtain ⟨slots, printed, fills⟩ :=
        padFrom_slots backed separateMoved entry.node.trailing 1
      have within : ∀ line ∈ TriviaLine.dropBlank (TriviaLine.collapse entry.lines),
          line ∈ entry.lines := fun line member =>
        TriviaLine.mem_of_mem_collapseFrom ((List.dropWhile_sublist _).subset member)
      have same :=
        (TriviaLine.contents_dropBlank (TriviaLine.collapse entry.lines)).trans
        (TriviaLine.contents_collapseFrom false entry.lines)
      obtain ⟨slot, print, fill⟩ :=
        first.fills within same (by simp [lineEnds] : [] ∈ lineEnds)
      refine ⟨slot :: slots, .cons fill fills, ?_, fun place => ?_⟩
      · rw [pad, Node.printAll_cons, printAll_slots printed, Slot.all_cons,
          Token.joined_append, ← print, print_withLeading, print_withLeading,
          firstLeading]
        simp
      · exact printAll_slots (List.forall₂_drop place printed)

/-- The lines in front of an item, with complete lines taken off as a header, and the
item itself. -/
theorem Spells.backed {options : Options} {source : Text} {after : List Token}
    {node : Node} {group : Group} (spells : Spells options source after node group)
    {header lines : List TriviaLine}
    (parted : header ++ lines = TriviaLine.split node.leading)
    (complete : ∀ line ∈ header, line.isComplete = true)
    (noDirective : ∀ line ∈ lines, line.hasDirective = false) (position : Nat) :
    ∃ front own, group.lead = front ++ own ∧ joined front = TriviaLine.joined header
      ∧ (front = [] ∨ ∃ before newline, front = before ++ [newline]
        ∧ newline.kind = .newline)
      ∧ Backed { node := (node.reorganize options source).1, position, lines }
        { group with lead := own } := by
  obtain ⟨lineStart, run⟩ := spells.run
  obtain ⟨first, core, inner, spelled, -, significant⟩ := spells.starts
  have inner_info := (Node.reorganize_isInner options source).info node
  rw [Group.source, List.append_assoc, spelled] at run
  obtain ⟨whole, later⟩ := Token.run_append.mp run
  -- The leading trivia, read on its own, gives the same tokens.
  have same : (Token.lex node.leading).map Token.face = group.lead.map Token.face := by
    rw [spells.leading]
    exact (whole.starting spells.plain.left.left).map_face_lex
  have made := TriviaLine.lines_split node.leading
  rw [← parted] at made
  obtain ⟨front, own, tokens, text, lined, ends⟩ := made.split_front complete
  rw [tokens, List.map_append] at same
  obtain ⟨frontTokens, ownTokens, leads, frontFaces, ownFaces⟩ :=
    List.map_eq_append_iff.mp same.symm
  rw [leads] at whole
  have ownRun := (Token.run_append.mp whole).2.congr ownFaces
  have ignored {tokens : List Token}
      (faces : tokens.map Token.face = ownTokens.map Token.face) :
      ∀ token ∈ tokens, token.isTrivia = true := by
    intro token member
    obtain ⟨other, within, equal⟩ :=
      List.mem_map.mp (faces ▸ List.mem_map_of_mem member)
    have kind : other.kind = token.kind := congrArg Prod.fst equal
    rw [Token.isTrivia, ← kind]
    exact spells.trivia other (by rw [leads]; exact List.mem_append_right _ within)
  have closed : ∀ token ∈ own.getLast?, token.kind ≠ .lineComment := by
    intro token last comment
    obtain ⟨before, rfl⟩ := List.getLast?_eq_some_iff.mp last
    have read := (Token.run_append.mp ownRun).2.1
    simp only [Token.joined_nil, List.nil_append, List.cons_append, Token.joined_cons,
      List.append_assoc] at read
    have blank := read.isBlank_of_lineComment comment later.1
    rw [Token.isBlank_of_significant significant] at blank
    cases blank
  refine ⟨frontTokens, ownTokens, leads,
    (Token.joined_congr frontFaces).trans text, ?_, ?_⟩
  · rcases ends with rfl | ⟨before, newline, rfl, line⟩
    · exact .inl (List.map_eq_nil_iff.mp frontFaces)
    · obtain ⟨others, last, rfl, -, lastFace⟩ := List.map_eq_append_iff.mp
        (frontFaces.trans List.map_append)
      obtain ⟨final, rfl, same⟩ := List.map_eq_singleton_iff.mp lastFace
      exact .inr ⟨others, final, rfl,
        (congrArg Prod.fst same : final.kind = newline.kind).trans line⟩
  · refine ⟨spells.printed, ?_, ⟨own, lined, ?_⟩, ?_, ?_⟩
    · rw [Node.trailing, inner_info]
      exact spells.trailing
    · rw [content, content, ownFaces]
    · refine lined.free ownRun (fun token member => ?_) ?_ closed
      · exact ⟨ignored ownFaces.symm token member,
          lined.hasDirective_iff.mp noDirective token member⟩
      · simp [later.1.text_ne_nil]
    · intro line member token within
      refine Plain.of_trivia (fun token within => ?_)
        (Token.run_lexFrom true 0 line.text).stands.formed token within
      exact ignored (lined.map_face_tokens.trans ownFaces.symm) token
        (List.mem_flatMap.mpr ⟨line, member, within⟩)

namespace Group

/-- An item that was not the last one of its list: it ends with a bracket or a
semicolon, and the trivia behind it is free and gives its line end away as a token. -/
structure Movable (group : Group) : Prop where
  ends : ∃ inner final, group.inner = inner ++ [final] ∧ final.isBracket = true
  free : Free group.trail
  lineEnd : (joined group.trail).lineEnd = []
    ∨ ∃ front newline, group.trail = front ++ [newline]
    ∧ newline.kind = .newline ∧ newline.text = (joined group.trail).lineEnd

/-- A movable item stands in front of whatever stands everywhere. -/
theorem Movable.beside {group : Group} (movable : group.Movable) {tokens : List Token}
    (stands : ∀ lineStart, Stands lineStart tokens [])
    (own : Stands true group.inner []) :
    Stands true (group.inner ++ tokens) [] := by
  obtain ⟨inner, final, spelled, bracket⟩ := movable.ends
  rw [spelled] at own ⊢
  exact Token.stands_append.mpr ⟨own.bracket bracket _, stands _⟩

/-- The trailing trivia of a movable item without its line end. -/
theorem Movable.shorten {group : Group} (movable : group.Movable)
    (plain : Plain group.trail) :
    ∃ trail, joined trail = (joined group.trail).dropEnding (joined group.trail).lineEnd
      ∧ content trail = content group.trail ∧ Plain trail
      ∧ (Stands true group.inner [] → Stands true (group.inner ++ trail) []) := by
  have whole := Text.dropEnding_lineEnd (joined group.trail)
  rcases movable.lineEnd with empty | ⟨front, newline, trails, is, text⟩
  · rw [empty, List.append_nil] at whole
    exact ⟨group.trail,
      by rw [empty, whole], rfl, plain, movable.beside fun _ => movable.free _ _⟩
  · refine ⟨front, ?_, ?_, (trails ▸ plain).left, movable.beside fun lineStart => ?_⟩
    · refine (List.append_left_inj (joined group.trail).lineEnd).mp ?_
      rw [whole, ← text, trails, Token.joined_append, Token.joined_cons,
        Token.joined_nil, List.append_nil]
    · rw [trails, Token.content_append, Token.content_of_blank (by rw [is]; rfl),
        List.append_nil]
    · have free := movable.free lineStart []
      rw [trails] at free
      exact (Token.stands_append.mp free).1.cut (.nothing _)

/-- The item that was the last one of its list, in front of the tokens `rest`: its text,
and that it still stands in front of everything that replaces what follows it. -/
structure Final (rest : List Token) (text : Text) (group : Group) : Prop where
  printed : ∃ lead, Free lead ∧ text = joined (lead ++ (group.inner ++ group.trail))
  extend : ∀ new, Replaces (group.trail ++ rest) new → Stands true group.inner [] →
    Stands true (group.inner ++ new) []

end Group

/-- An entry with its tokens, in a list whose last item, at position `last`, has the
given text. -/
structure Carried (rest : List Token) (last : Nat) (text : Text) (entry : Entry)
    (group : Group) :
    Prop extends Backed entry group where
  starts : ∃ first inner, group.inner = first :: inner ∧ first.isTrivia = false
    ∧ first.is "#" = false
  plainInner : Plain group.inner
  plainTrail : Plain group.trail
  movable : entry.position ≠ last → group.Movable
  final : entry.position = last → group.Final rest text

/-- The text of an item is separate from another one exactly when their tokens stand
side by side. -/
theorem areSeparate_tokens {lead inner trail behind : List Token} (free : Free lead)
    (starts : ∃ first rest, inner = first :: rest ∧ first.isTrivia = false
      ∧ first.is "#" = false)
    (own : Stands true (inner ++ trail) []) (other : Stands true behind []) :
    Token.areSeparate (joined (lead ++ (inner ++ trail))) (joined behind) = true
      ↔ Stands true (inner ++ (trail ++ behind)) [] := by
  have sound : Slot.Sound ⟨lead, inner, trail⟩ := ⟨free, starts⟩
  have alone : Stands true (Slot.tokens ⟨lead, inner, trail⟩ ++ []) [] :=
    (sound.stands_iff true []).mpr (by simpa using own)
  rw [List.append_nil] at alone
  rw [← sound.stands_iff true behind]
  exact Token.areSeparate_iff alone other

/-- The entry that was last stands somewhere in the new order. -/
theorem split_last {sorted : List Entry} {last : Nat}
    (positions : (sorted.map Entry.position).Perm (List.range (last + 1))) :
    ∃ front old back, sorted = front ++ old :: back ∧ old.position = last
      ∧ (∀ entry ∈ front, entry.position ≠ last)
      ∧ (∀ entry ∈ back, entry.position ≠ last)
      ∧ sorted.findIdx (fun entry => entry.position == last) = front.length := by
  have present : last ∈ sorted.map Entry.position := positions.mem_iff.mpr (by simp)
  obtain ⟨old, member, is⟩ := List.mem_map.mp present
  obtain ⟨front, back, rfl⟩ := List.append_of_mem member
  have distinct := positions.nodup_iff.mpr List.nodup_range
  rw [List.map_append, List.map_cons, is] at distinct
  have before : ∀ entry ∈ front, entry.position ≠ last := by
    intro entry within same
    have apart := (List.nodup_append.mp distinct).2.2 last
      (List.mem_map.mpr ⟨entry, within, same⟩) last List.mem_cons_self
    exact apart rfl
  have after : ∀ entry ∈ back, entry.position ≠ last := by
    intro entry within same
    have apart := (List.nodup_cons.mp (List.nodup_append.mp distinct).2.1).1
    exact apart (List.mem_map.mpr ⟨entry, within, same⟩)
  refine ⟨front, old, back, rfl, is, before, after, ?_⟩
  have empty : front.findIdx (fun entry => entry.position == last) = front.length :=
    List.findIdx_eq_length.mpr fun entry within => by simpa using before entry within
  rw [List.findIdx_append, empty, if_neg (Nat.lt_irrefl _), List.findIdx_cons]
  simp [is]

/-- When the last entry stays the last one, no line end moves. -/
theorem settle_of_last {front : List Entry} {old : Entry}
    (is : old.position = front.length) :
    settle (front ++ [old]) = front ++ [old] ∧ movedLineEnd (front ++ [old]) = [] := by
  rcases settle_cases (front ++ [old]) with same | ⟨new, final, moved, -, -⟩
  · exact same
  · rw [List.getLast?_concat] at final
    obtain rfl := Option.some.inj final
    simp [is] at moved

/-- When another entry becomes the last one, its line end moves or nothing does. -/
theorem settle_of_moved {front middle : List Entry} {old new : Entry}
    (distinct : ((front ++ old :: (middle ++ [new])).map Entry.position).Nodup)
    (is : old.position = front.length + middle.length + 1) :
    let sorted := front ++ old :: (middle ++ [new])
    let lineEnd := new.node.trailing.lineEnd
    (settle sorted = sorted ∧ movedLineEnd sorted = []) ∨
      (movedLineEnd sorted = lineEnd
        ∧ settle sorted = front
          ++ { old with node := old.node.withTrailing (old.node.trailing ++ lineEnd) }
            :: (middle ++ [{ new with
              node := new.node.withTrailing (new.node.trailing.dropEnding lineEnd) }])) := by
  intro sorted lineEnd
  rcases settle_cases sorted with same | ⟨last, final, moved, lineEnds, settled⟩
  · exact .inl same
  have whole : sorted = (front ++ old :: middle) ++ [new] := by simp [sorted]
  have size : sorted.length - 1 = old.position := by
    simp only [sorted, List.length_append, List.length_cons, List.length_nil, is]
    omega
  rw [whole, List.getLast?_concat] at final
  obtain rfl := Option.some.inj final
  rw [size] at moved settled
  refine .inr ⟨lineEnds, ?_⟩
  -- The line end goes from the last entry to the old one; all other entries stay as
  -- they are.
  simp only [List.map_append, List.map_cons, List.map_nil] at distinct
  have stays (others : List Entry)
      (apart : ∀ entry ∈ others, entry.position ≠ old.position
      ∧ entry.position ≠ new.position) :
      others.map (.handOver lineEnd old.position new.position) = others := by
    refine (List.map_congr_left fun entry member => ?_).trans (List.map_id _)
    obtain ⟨notOld, notNew⟩ := apart entry member
    rw [Entry.handOver, if_neg (by simpa using notOld), if_neg (by simpa using notNew)]
    rfl
  have frontApart := stays front fun entry member => by
    have apart := (List.nodup_append.mp distinct).2.2 entry.position
      (List.mem_map_of_mem member)
    exact ⟨apart _ (by simp), apart _ (by simp)⟩
  have middleApart := stays middle fun entry member => by
    obtain ⟨notOld, others⟩ := List.nodup_cons.mp (List.nodup_append.mp distinct).2.1
    refine ⟨fun same => notOld ?_, ?_⟩
    · rw [← same]
      exact List.mem_append_left _ (List.mem_map_of_mem member)
    · exact (List.nodup_append.mp others).2.2 _ (List.mem_map_of_mem member) _ (by simp)
  simp only [settled, sorted, List.map_append, List.map_cons, List.map_nil]
  rw [frontApart, middleApart]
  simp [Entry.handOver, moved, lineEnd]

namespace Slot

/-- What starts with a sound item stands in all places or in none. -/
theorem Sound.anywhere {slot : Slot} (sound : slot.Sound) (behind : List Token)
    (lineStart other : Bool) (stands : Stands lineStart (slot.tokens ++ behind) []) :
    Stands other (slot.tokens ++ behind) [] :=
  (sound.stands_iff other behind).mpr ((sound.stands_iff lineStart behind).mp stands)

/-- Closed items in front of the last one. -/
theorem stands_last {front : List Slot} {old : Slot} {new : List Token}
    (closed : ∀ slot ∈ front, slot.Closed) (sound : old.Sound)
    (extend : Stands true old.inner [] →
      Stands true (old.inner ++ (old.trail ++ new)) [])
    (lineStart : Bool) :
    Stands lineStart (all (front ++ [old]) ++ new) []
      ↔ ∀ slot ∈ front ++ [old], Stands true slot.inner [] := by
  rw [all_append, all_cons, all_nil, List.append_nil, List.append_assoc,
    all_stands_iff closed (sound.anywhere new) lineStart, sound.stands_iff]
  simp only [List.forall_mem_append, List.forall_mem_singleton]
  refine and_congr_right fun _ => ⟨fun stands => ?_, extend⟩
  exact (Token.stands_append.mp stands).1.cut (.nothing _)

/-- An item that was the last one in front of others, with the two seams that this
makes. -/
theorem stands_moved {front middle : List Slot} {old final : Slot}
    {lead trail ends new : List Token} (before : ∀ slot ∈ front, slot.Closed)
    (between : ∀ slot ∈ middle, slot.Closed) (sound : old.Sound)
    (soundFinal : final.Sound) (trails : old.trail = trail ++ ends) (free : Free lead)
    (freeEnds : Free ends)
    (alone : Stands true old.inner [] → Stands true (old.inner ++ trail) [])
    (aloneFinal : Stands true final.inner [] →
      Stands true (final.inner ++ final.trail) [])
    (stands : Stands true new []) (lineStart : Bool) :
    Stands lineStart (all (front ++ old :: (middle ++ [final])) ++ new) [] ↔
      (∀ slot ∈ front ++ old :: (middle ++ [final]), Stands true slot.inner [])
        ∧ Token.areSeparate (joined (lead ++ (old.inner ++ trail)))
          (joined (ends ++ (all (middle ++ [final]) ++ new))) = true
        ∧ Token.areSeparate (joined final.tokens) (joined new) = true := by
  have finalIff (own : Stands true final.inner []) :
      Token.areSeparate (joined final.tokens) (joined new) = true
        ↔ Stands true (final.tokens ++ new) [] :=
    (areSeparate_tokens soundFinal.free soundFinal.starts (aloneFinal own) stands).trans
      (soundFinal.stands_iff true new).symm
  have middleIff := all_stands_iff between (soundFinal.anywhere new)
  have oldIff (own : Stands true old.inner [])
      (rest : ∀ lineStart, Stands lineStart (all middle ++ (final.tokens ++ new)) []) :=
    areSeparate_tokens free sound.starts (alone own)
      (Token.stands_append.mpr ⟨freeEnds true _, rest _⟩)
  have parted : all (front ++ old :: (middle ++ [final])) ++ new
      = all front ++ (old.tokens ++ (all middle ++ (final.tokens ++ new))) := by simp
  have later : all (middle ++ [final]) ++ new
      = all middle ++ (final.tokens ++ new) := by simp
  rw [parted, later, all_stands_iff before (sound.anywhere _) lineStart,
    sound.stands_iff, trails]
  simp only [List.forall_mem_append, List.forall_mem_cons, List.append_assoc]
  constructor
  · rintro ⟨fronts, whole⟩
    obtain ⟨own, rest⟩ := Token.stands_append.mp whole
    have rest := (Token.stands_append.mp (Token.stands_append.mp rest).2).2
    obtain ⟨middles, last⟩ := (middleIff _).mp rest
    have own := own.cut (.nothing _)
    have finals :=
      (Token.stands_append.mp ((soundFinal.stands_iff true new).mp last)).1.cut
      (.nothing _)
    refine ⟨⟨fronts, own, middles, by simpa using finals⟩, ?_,
      (finalIff finals).mpr last⟩
    exact (oldIff own fun lineStart => (middleIff lineStart).mpr ⟨middles, last⟩).mpr
      whole
  · rintro ⟨⟨fronts, own, middles, finals⟩, seam, seamFinal⟩
    have last := (finalIff finals.1).mp seamFinal
    exact ⟨fronts, (oldIff own fun lineStart =>
      (middleIff lineStart).mpr ⟨middles, last⟩).mp seam⟩

end Slot

end Arrange

end Lineup
