import Lineup.Proofs.Order
import Lineup.Proofs.Rearrangement

/-!
# Lists at rest

A list is at rest when there is nothing to do for it: it has fewer than two items, or
preprocessor lines stand between its items, or the items are in order and no blank line
is in excess. Exactly these lists are reported as unchanged, and such a list is left as
it is. Every list is at rest after it was rearranged.
-/

namespace Lineup

namespace TriviaLine

theorem isDivider_of_isBlank {line : TriviaLine} (blank : line.isBlank = true) :
    line.isDivider = true := by
  rw [isBlank, Bool.and_eq_true] at blank
  simp [isDivider, blank.1, blank.2]

theorem isDivider_drop_headerLength (lines : List TriviaLine) :
    ∀ line ∈ lines.drop (headerLength lines), line.isDivider = false := by
  induction lines with
  | nil => simp
  | cons first lines ih =>
      cases length : headerLength lines with
      | zero =>
          rw [length, List.drop_zero] at ih
          cases divider : first.isDivider with
          | true => simpa [headerLength, length, divider] using ih
          | false => simpa [headerLength, length, divider] using ih
      | succ more =>
          rw [length] at ih
          simpa [headerLength, length] using ih

theorem take_headerLength (lines : List TriviaLine) :
    lines.take (headerLength lines) = [] ∨
    ∃ front divider, lines.take (headerLength lines) = front ++ [divider]
      ∧ divider.isDivider = true := by
  induction lines with
  | nil => exact .inl rfl
  | cons first lines ih =>
      cases length : headerLength lines with
      | zero =>
          cases divides : first.isDivider with
          | true =>
              exact .inr ⟨[], first, by simp [headerLength, length, divides], divides⟩
          | false => exact .inl (by simp [headerLength, length, divides])
      | succ more =>
          rw [length] at ih
          rcases ih with empty | ⟨front, divider, taken, divides⟩
          · cases lines with
            | nil => cases length
            | cons next lines => cases empty
          · exact .inr ⟨first :: front, divider,
              by simp [headerLength, length, taken], divides⟩

theorem spaced_of_not_blank {lines : List TriviaLine}
    (solid : ∀ line ∈ lines, line.isBlank = false) :
    Spaced lines := by
  induction lines with
  | nil => exact .nil
  | cons line lines ih =>
      refine List.isChain_cons.mpr ⟨fun next _ => ?_, ih fun each member => ?_⟩
      · rw [solid line (by simp), Bool.false_and]
      · exact solid each (List.mem_cons_of_mem _ member)

theorem le_headerLength {divider : TriviaLine} (divides : divider.isDivider = true)
    (front behind : List TriviaLine) :
    (front ++ [divider]).length ≤ headerLength (front ++ [divider] ++ behind) := by
  by_contra short
  rw [List.length_append, List.length_singleton, Nat.not_le, Nat.lt_succ_iff] at short
  have member : divider ∈ (front ++ [divider] ++ behind).drop
      (headerLength (front ++ [divider] ++ behind)) := by
    rw [List.append_assoc] at short ⊢
    rw [List.drop_append_of_le_length short]
    simp
  rw [isDivider_drop_headerLength _ divider member] at divides
  cases divides

theorem splitHeader_eq_nil {lines own : List TriviaLine}
    (absent : (((splitHeader lines).1 ++ own).take
      (headerLength ((splitHeader lines).1 ++ own))).all hasOnlySpace = true) :
    (splitHeader lines).1 = [] := by
  simp only [splitHeader] at absent ⊢
  split at absent
  · rename_i blank
    rw [if_pos blank]
  · rename_i kept
    rw [if_neg kept]
    rcases take_headerLength lines with empty | ⟨front, divider, taken, divides⟩
    · exact empty
    · rw [taken] at absent kept
      rw [List.take_append, List.take_of_length_le (le_headerLength divides front own),
        List.all_append, Bool.and_eq_true] at absent
      exact absurd absent.1 kept

theorem splitHeader_again {lines own : List TriviaLine} (spaced : Spaced own)
    (starts : Starts own) :
    Spaced (splitHeader ((splitHeader lines).1 ++ own)).2
      ∧ Starts (splitHeader ((splitHeader lines).1 ++ own)).2 := by
  by_cases blank : (((splitHeader lines).1 ++ own).take
      (headerLength ((splitHeader lines).1 ++ own))).all hasOnlySpace = true
  · have empty := splitHeader_eq_nil blank
    rw [splitHeader, if_pos blank, empty]
    exact ⟨spaced, starts⟩
  · rw [splitHeader, if_neg blank]
    have plain : ∀ line ∈ ((splitHeader lines).1 ++ own).drop
        (headerLength ((splitHeader lines).1 ++ own)), line.isBlank = false := by
      intro line member
      have divides := isDivider_drop_headerLength _ line member
      by_contra blank
      rw [isDivider_of_isBlank (by simpa using blank)] at divides
      cases divides
    exact ⟨spaced_of_not_blank plain, fun line first =>
      plain line (List.mem_of_mem_head? first)⟩

theorem Lines.hasDirective_of_isBlank {lines : List TriviaLine} {tokens : List Token}
    (made : Lines lines tokens) {line : TriviaLine} (member : line ∈ lines)
    (blank : line.isBlank = true) : line.hasDirective = false := by
  have spaces (tokens : List Token) (only : (ofTokens tokens).hasOnlySpace = true) :
      (ofTokens tokens).hasDirective = false := by
    simp only [ofTokens, List.all_eq_true, beq_iff_eq, List.any_eq_false] at only ⊢
    intro token within is
    rw [only token within] at is
    cases is
  rw [isBlank, Bool.and_eq_true] at blank
  induction made with
  | nil => cases member
  | last present plain run =>
      cases List.mem_singleton.mp member
      exact spaces _ blank.2
  | cons plain is run rest ih =>
      cases List.mem_cons.mp member with
      | inl first =>
          cases first
          exact spaces _ blank.2
      | inr later => exact ih later

theorem splitHeader_suffix (lines own : List TriviaLine) :
    (splitHeader ((splitHeader lines).1 ++ own)).2 <:+ own := by
  by_cases blank : (((splitHeader lines).1 ++ own).take
      (headerLength ((splitHeader lines).1 ++ own))).all hasOnlySpace = true
  · rw [splitHeader, if_pos blank, splitHeader_eq_nil blank]
    exact List.suffix_refl own
  · rw [splitHeader, if_neg blank]
    have reaches : (splitHeader lines).1.length
        ≤ headerLength ((splitHeader lines).1 ++ own) := by
      rw [splitHeader]
      split
      · exact Nat.zero_le _
      · rcases take_headerLength lines with empty | ⟨front, divider, taken, divides⟩
        · rw [empty]
          exact Nat.zero_le _
        · dsimp only
          rw [taken]
          exact le_headerLength divides front own
    rw [List.drop_append, List.drop_eq_nil_of_le reaches, List.nil_append]
    exact List.drop_suffix _ _

theorem joined_split (trivia : Text) : joined (split trivia) = trivia :=
  (lines_split trivia).joined_eq.trans (Token.joined_lex trivia)

namespace Lines

variable {lines : List TriviaLine} {tokens : List Token}

theorem joined_collapse_iff (made : Lines lines tokens) :
    joined (collapse lines) = joined lines ↔ Spaced lines := by
  constructor
  · intro same
    rw [← made.eq_of_sublist (collapseFrom_sublist false lines) same]
    exact spaced_collapse lines
  · intro spaced
    rw [collapse_eq_self spaced]

theorem joined_dropBlank_collapse_iff (made : Lines lines tokens) :
    joined (TriviaLine.dropBlank (collapse lines)) = joined lines ↔ Starts lines
      ∧ Spaced lines := by
  constructor
  · intro same
    have part := (List.dropWhile_sublist isBlank).trans
      (collapseFrom_sublist false lines)
    have kept := made.eq_of_sublist part same
    rw [← kept]
    exact ⟨starts_dropBlank _,
      (spaced_collapse lines).suffix (List.dropWhile_suffix isBlank)⟩
  · rintro ⟨starts, spaced⟩
    rw [collapse_eq_self spaced, dropBlank_eq_self starts]

end Lines

end TriviaLine

theorem Report.isChanged_eq_false_iff (report : Report) : report.isChanged = false
    ↔ report.movedDirectives = 0 ∧ report.movedMembers = 0 ∧ report.cleaned = 0 := by
  simp [Report.isChanged, and_assoc]

theorem Node.withLeading_eq_self (node : Node) (leading : Text) :
    node.withLeading leading = node ↔ leading = node.leading := by
  cases node with
  | mk info segments =>
      cases info
      simp [Node.withLeading, Node.leading, Node.info]

namespace Arrange

open TriviaLine (Lines Spaced Starts contents)

/-- No blank line is in excess: the lines of the first entry do not start with one, and
none stands behind another. -/
def Tidy : List Entry → Prop
  | [] => True
  | first :: rest => Starts first.lines ∧ ∀ entry ∈ first :: rest, Spaced entry.lines

/-- There is nothing to do for a list. -/
def Rests (options : Options) (source : Text) (fallback : AccessLevel) (kind : ListKind)
    (items : List Node) : Prop :=
  items.length < 2 ∨ isReorderable (entries items).2 = false
    ∨ InOrder options source fallback kind items ∧ Tidy (entries items).2

theorem padFrom_eq_iff (separateMoved : Bool) (previous : Text) (place : Nat)
    (entries : List Entry) :
    (padFrom separateMoved previous place entries).map Node.leading
        = (entries.map Entry.node).map Node.leading
      ↔ padFrom separateMoved previous place entries = entries.map Entry.node := by
  induction entries generalizing previous place with
  | nil => simp [padFrom]
  | cons entry entries ih =>
      simp only [padFrom, List.map_cons, List.cons.injEq, ih, Node.withLeading_eq_self]
      simp [Node.leading]

theorem pad_eq_iff (separateMoved : Bool) (header : List TriviaLine)
    (entries : List Entry) :
    (pad separateMoved header entries).map Node.leading
      = (entries.map Entry.node).map Node.leading
      ↔ pad separateMoved header entries = entries.map Entry.node := by
  cases entries with
  | nil => simp [pad]
  | cons entry entries =>
      simp only [pad, List.map_cons, List.cons.injEq, padFrom_eq_iff,
        Node.withLeading_eq_self]
      simp [Node.leading]

theorem padFrom_eq_self_iff (separateMoved : Bool) (previous : Text) (position : Nat)
    (items : List Node) :
    padFrom separateMoved previous position (entriesFrom position items) = items
      ↔ ∀ entry ∈ entriesFrom position items, Spaced entry.lines := by
  induction items generalizing previous position with
  | nil => simp [entriesFrom, padFrom]
  | cons item items ih =>
      have spaced := (TriviaLine.lines_split item.leading).joined_collapse_iff
      rw [TriviaLine.joined_split] at spaced
      simp [entriesFrom, padFrom, laterLeading, ih, Node.withLeading_eq_self, spaced]

theorem pad_eq_self_iff (separateMoved : Bool) (items : List Node) :
    pad separateMoved (entries items).1 (entries items).2 = items
      ↔ Tidy (entries items).2 := by
  cases items with
  | nil => simp [entries, pad, Tidy]
  | cons item items =>
      have whole := TriviaLine.splitHeader_append (TriviaLine.split item.leading)
      obtain ⟨tokens, made⟩ := (TriviaLine.lines_split item.leading).suffix ⟨_, whole⟩
      have tidy := made.joined_dropBlank_collapse_iff
      have leading := congrArg TriviaLine.joined whole
      rw [TriviaLine.joined_append, TriviaLine.joined_split] at leading
      rw [← List.append_right_inj, leading] at tidy
      simp only [entries, pad, firstLeading, Tidy, List.cons.injEq,
        Node.withLeading_eq_self, padFrom_eq_self_iff, List.forall_mem_cons]
      rw [tidy, and_assoc]

/-- What is reported of sorted entries: nothing, unless items move or leading trivia
changes. -/
theorem arrange_still_iff (separateMoved : Bool) (header : List TriviaLine)
    (sorted : List Entry) :
    (arrange separateMoved header sorted).2.1 = 0
      ∧ (arrange separateMoved header sorted).2.2 = false
      ↔ countMoved 0 sorted = 0
      ∧ pad separateMoved header sorted = sorted.map Entry.node := by
  simp only [arrange]
  refine and_congr_right fun still => ?_
  rw [if_pos still, ← pad_eq_iff, List.map_map]
  simp [still, Function.comp_def]

variable (options : Options) (source : Text) (fallback : AccessLevel) (kind : ListKind)

theorem isChanged_list {items : List Node}
    (sorts : ¬ (items.length < 2 ∨ isReorderable (entries items).2 = false)) :
    (list options source fallback kind items).2.isChanged = false
      ↔ countMoved 0 (order options source fallback kind (entries items).2) = 0
        ∧ pad (separates kind) (entries items).1
            (order options source fallback kind (entries items).2)
          = (order options source fallback kind (entries items).2).map Entry.node := by
  rw [not_or, Bool.not_eq_false] at sorts
  rw [← arrange_still_iff]
  simp only [list, if_neg sorts.1, sorts.2, Bool.not_true, Bool.false_eq_true, if_false]
  cases kind with
  | directives => simp [Report.isChanged, order, separates]
  | members => simp [Report.isChanged, order, separates]

/-- Exactly the lists at rest are reported as unchanged. -/
theorem isChanged_list_iff (items : List Node) :
    (list options source fallback kind items).2.isChanged = false
      ↔ Rests options source fallback kind items := by
  by_cases stays : items.length < 2 ∨ isReorderable (entries items).2 = false
  · have unchanged : (list options source fallback kind items).2.isChanged = false := by
      by_cases short : items.length < 2
      · simp [list, short, Report.isChanged]
      · simp [list, short, stays.resolve_left short, Report.isChanged]
    exact iff_of_true unchanged (or_assoc.mp (.inl stays))
  · have perm := order_perm options source fallback kind (entries items).2
    rw [isChanged_list _ _ _ _ stays, countMoved_perm_iff perm, Rests, ← or_assoc,
      or_iff_right stays]
    constructor
    · rintro ⟨same, padded⟩
      have ordered := inOrder_order options source fallback kind (entries items).2
      rw [same, entries_nodes] at ordered padded
      exact ⟨ordered, (pad_eq_self_iff _ items).mp padded⟩
    · rintro ⟨ordered, tidy⟩
      rw [← entries_nodes items] at ordered
      have same := order_eq_self options source fallback kind ordered
      refine ⟨same, ?_⟩
      rw [same, (pad_eq_self_iff _ items).mpr tidy, entries_nodes]

/-- A list at rest is left as it is. -/
theorem Rests.list_eq {items : List Node}
    (rests : Rests options source fallback kind items) :
    (list options source fallback kind items).1 = items := by
  rw [list_fst]
  by_cases stays : items.length < 2 ∨ isReorderable (entries items).2 = false
  · rw [if_pos stays]
  · rw [Rests, ← or_assoc, or_iff_right stays] at rests
    have ordered := rests.1
    rw [← entries_nodes items] at ordered
    have same := order_eq_self options source fallback kind ordered
    rw [if_neg stays, same, settle, if_pos ((countMoved_perm_iff (.refl _)).mpr rfl),
      (pad_eq_self_iff _ items).mpr rests.2]

/-- The order of items depends on their declarations only. -/
theorem InOrder.of_heads {nodes others : List Node}
    (same : List.Forall₂
      (fun node other => other.kind = node.kind ∧ other.head = node.head) nodes others)
    (ordered : InOrder options source fallback kind nodes) :
    InOrder options source fallback kind others := by
  cases kind with
  | directives =>
      have keys : others.map (Directive.classify source)
          = nodes.map (Directive.classify source) :=
        map_eq_of_forall₂
          (fun node other same => by rw [Directive.classify, same.2]; rfl) same
      rwa [InOrder, keys]
  | members =>
      have keys : others.map (Member.classify fallback)
          = nodes.map (Member.classify fallback) :=
        map_eq_of_forall₂ (fun node other same => by
          rw [Member.classify, same.1, same.2]; rfl) same
      rwa [InOrder, keys]

/-- The trivia in front of an item of a list that was sorted: behind the header, no
blank line is in excess, and there is no preprocessor line. -/
def Tidied (header : List TriviaLine) (place : Nat) (item : Node) : Prop :=
  ∃ own, TriviaLine.split item.leading = (if place = 0 then header else []) ++ own
    ∧ Spaced own ∧ (place = 0 → Starts own) ∧ ∀ line ∈ own, line.hasDirective = false

theorem isReorderable_iff (entries : List Entry) : isReorderable entries = true ↔
    ∀ entry ∈ entries, ∀ line ∈ entry.lines, line.hasDirective = false := by
  simp [isReorderable]

/-- Sorting a list leaves no blank line in excess and no preprocessor line between the
items. -/
theorem list_tidied {items : List Node}
    (sorts : ¬ (items.length < 2 ∨ isReorderable (entries items).2 = false))
    {place : Nat} {item : Node}
    (placed : (list options source fallback kind items).1[place]? = some item) :
    Tidied (entries items).1 place item := by
  obtain ⟨entry, settled, leading, listed, rfl, changed, leads, tokens, lines⟩ :=
    list_placed options source fallback kind sorts placed
  obtain ⟨own, parted, same, spaced, starts⟩ := leads.split lines
  refine ⟨own, by rw [Node.leading_withLeading, parted], spaced, starts, ?_⟩
  intro line member
  obtain ⟨_, made⟩ := (TriviaLine.lines_split leading).suffix ⟨_, parted.symm⟩
  cases blank : line.isBlank with
  | true => exact made.hasDirective_of_isBlank member blank
  | false =>
      rw [not_or, Bool.not_eq_false, isReorderable_iff] at sorts
      have kept : line ∈ contents own := List.mem_filter.mpr ⟨member, by simp [blank]⟩
      rw [same, changed.lines] at kept
      exact sorts.2 entry listed line (List.mem_filter.mp kept).1

theorem mem_entriesFrom {position : Nat} {items : List Node} {entry : Entry}
    (member : entry ∈ entriesFrom position items) :
    ∃ place : Nat, ∃ item : Node, items[place]? = some item
      ∧ entry.lines = TriviaLine.split item.leading := by
  induction items generalizing position with
  | nil => cases member
  | cons item items ih =>
      cases List.mem_cons.mp member with
      | inl first =>
          cases first
          exact ⟨0, item, rfl, rfl⟩
      | inr later =>
          obtain ⟨place, other, found, same⟩ := ih later
          exact ⟨place + 1, other, found, same⟩

theorem entries_of_tidied (lines : List TriviaLine) {items : List Node}
    (tidied : ∀ place item, items[place]? = some item →
      Tidied (TriviaLine.splitHeader lines).1 place item) :
    Tidy (entries items).2 ∧ isReorderable (entries items).2 = true := by
  rw [isReorderable_iff]
  cases items with
  | nil => simp [entries, Tidy]
  | cons item items =>
      obtain ⟨own, parted, spaced, starts, plain⟩ := tidied 0 item rfl
      rw [if_pos rfl] at parted
      have later : ∀ entry ∈ entriesFrom 1 items,
          Spaced entry.lines ∧ ∀ line ∈ entry.lines, line.hasDirective = false := by
        intro entry member
        obtain ⟨place, other, found, same⟩ := mem_entriesFrom member
        obtain ⟨own, parted, spaced, -, plain⟩ := tidied (place + 1) other found
        rw [same, parted, if_neg (Nat.succ_ne_zero place), List.nil_append]
        exact ⟨spaced, plain⟩
      have again : Spaced
          (TriviaLine.splitHeader ((TriviaLine.splitHeader lines).1 ++ own)).2
          ∧ Starts (TriviaLine.splitHeader
            ((TriviaLine.splitHeader lines).1 ++ own)).2 :=
        TriviaLine.splitHeader_again spaced (starts rfl)
      have behind := TriviaLine.splitHeader_suffix lines own
      simp only [entries, parted, Tidy, List.forall_mem_cons]
      refine ⟨⟨again.2, again.1, fun entry member => (later entry member).1⟩,
        fun line member => plain line (behind.subset member), ?_⟩
      intro entry member
      exact (later entry member).2

theorem entries_header (items : List Node) :
    ∃ lines, (entries items).1 = (TriviaLine.splitHeader lines).1 := by
  cases items with
  | nil => exact ⟨[], rfl⟩
  | cons item items => exact ⟨TriviaLine.split item.leading, rfl⟩

/-- A list that was sorted is tidy, and no preprocessor line stands between its
items. -/
theorem entries_list {items : List Node}
    (sorts : ¬ (items.length < 2 ∨ isReorderable (entries items).2 = false)) :
    Tidy (entries (list options source fallback kind items).1).2
      ∧ isReorderable (entries (list options source fallback kind items).1).2
        = true := by
  obtain ⟨lines, header⟩ := entries_header items
  apply entries_of_tidied lines
  intro place item placed
  rw [← header]
  exact list_tidied options source fallback kind sorts placed

/-- A list that was sorted is in order. -/
theorem inOrder_list {items : List Node}
    (sorts : ¬ (items.length < 2 ∨ isReorderable (entries items).2 = false)) :
    InOrder options source fallback kind
      (list options source fallback kind items).1 := by
  have twins := list_twin_order options source fallback kind sorts
  apply InOrder.of_heads options source fallback kind
    (twins.imp fun _ _ twin => ⟨twin.kind, twin.head⟩)
  exact inOrder_order options source fallback kind (entries items).2

/-- Every list is at rest after it was rearranged. -/
theorem rests_list (items : List Node) :
    Rests options source fallback kind (list options source fallback kind items).1 := by
  by_cases stays : items.length < 2 ∨ isReorderable (entries items).2 = false
  · rw [list_fst, if_pos stays]
    exact or_assoc.mp (.inl stays)
  · apply Or.inr
    apply Or.inr
    constructor
    · exact inOrder_list options source fallback kind stays
    · exact (entries_list options source fallback kind stays).1

/-- A list is passed over when it has two items or more and preprocessor lines stand
between them. -/
theorem skipped_list (items : List Node) :
    (list options source fallback kind items).2.skipped
    = if 2 ≤ items.length ∧ isReorderable (entries items).2 = false then 1 else 0 := by
  by_cases short : items.length < 2
  · simp [list, short]
  · have size : 2 ≤ items.length := Nat.le_of_not_lt short
    cases reorderable : isReorderable (entries items).2 with
    | false => simp [list, short, reorderable, size]
    | true => cases kind <;> simp [list, short, reorderable]

/-- Rearranging a list twice is the same as rearranging it once, and nothing but the
skipped lists is reported the second time. -/
theorem list_again (items : List Node) :
    list options source fallback kind (list options source fallback kind items).1
      = ((list options source fallback kind items).1,
        { skipped := (list options source fallback kind items).2.skipped }) := by
  have rests := rests_list options source fallback kind items
  have unchanged := (isChanged_list_iff options source fallback kind _).mpr rests
  have skipped : (list options source fallback kind
      (list options source fallback kind items).1).2.skipped
        = (list options source fallback kind items).2.skipped := by
    rw [skipped_list, skipped_list, list_length]
    by_cases stays : items.length < 2 ∨ isReorderable (entries items).2 = false
    · rw [list_fst, if_pos stays]
    · rw [(entries_list options source fallback kind stays).2]
      rw [not_or, Bool.not_eq_false] at stays
      rw [stays.2]
  apply Prod.ext
  · exact rests.list_eq
  · generalize list options source fallback kind
      (list options source fallback kind items).1 = again at unchanged skipped
    obtain ⟨nodes, moved, others, passed, cleaned⟩ := again
    rw [Report.isChanged_eq_false_iff] at unchanged
    simp_all

end Arrange

end Lineup
