import Mathlib.Data.List.Perm.Basic
import Lineup.Proofs.Seams

/-!
# The tokens of a sorted list

The entries of a list, in their new order, print as slots that keep the tokens of the
items. The slots stand in front of new tokens exactly when every item stands on its own
and the seams of the list hold. There are two cases: the item that was the last one is
the last one again, or another item takes its place.
-/

namespace Lineup

namespace Arrange

open Token (Run Stands Free Plain Replaces Follows joined content)

/-- The tokens of an item after the lists inside of it were rearranged. -/
def Group.moved (group : Group) : List Token :=
  group.lead ++ (group.inner ++ group.trail)

/-- The slot says what the item says, and holds its own tokens. -/
structure Keeps (group : Group) (slot : Slot) : Prop where
  inner : slot.inner = group.inner
  said : content slot.tokens = content group.moved
  plain : Plain slot.tokens

theorem forall₂_split {α β : Type} {related : α → β → Prop} {front back : List α}
    {item : α} {others : List β}
    (all : List.Forall₂ related (front ++ item :: back) others) :
    ∃ first other second, others = first ++ other :: second
      ∧ List.Forall₂ related front first
      ∧ related item other ∧ List.Forall₂ related back second := by
  have before := List.forall₂_take front.length all
  have behind := List.forall₂_drop front.length all
  rw [List.take_left] at before
  rw [List.drop_left] at behind
  obtain ⟨other, second, same, rest, parted⟩ := List.forall₂_cons_left_iff.mp behind
  refine ⟨_, other, second, ?_, before, same, rest⟩
  rw [← parted, List.take_append_drop]

theorem forall₂_around {α β : Type} {related : α → β → Prop} {front back : List α}
    {item : α} {first second : List β} {other : β}
    (before : List.Forall₂ related front first) (same : related item other)
    (behind : List.Forall₂ related back second) :
    List.Forall₂ related (front ++ item :: back) (first ++ other :: second) :=
  List.rel_append before (.cons same behind)

namespace Fills

variable {group : Group} {slot : Slot}

theorem sound (fills : Fills group slot)
    (starts : ∃ first inner, group.inner = first :: inner ∧ first.isTrivia = false
      ∧ first.is "#" = false) :
    slot.Sound :=
  ⟨fills.free, fills.inner ▸ starts⟩

theorem closed (fills : Fills group slot)
    (starts : ∃ first inner, group.inner = first :: inner ∧ first.isTrivia = false
      ∧ first.is "#" = false)
    (movable : group.Movable) : slot.Closed :=
  { toSound := fills.sound starts
    ends := fills.inner ▸ movable.ends
    trail := fills.trail ▸ movable.free }

/-- A slot keeps an item when its trailing trivia says the same. -/
theorem keeps {trail : List Token} (fills : Fills { group with trail } slot)
    (inner : Plain group.inner) (plain : Plain trail)
    (same : content trail = content group.trail) :
    Keeps group slot where
  inner := fills.inner
  said := by
    have lead : content slot.lead = content group.lead := fills.lead
    simp only [Slot.tokens, Group.moved, Token.content_append, lead, fills.inner,
      fills.trail, same]
  plain := by
    rw [Slot.tokens, fills.inner, fills.trail]
    exact fills.plain.append (inner.append plain)

end Fills

variable {rest : List Token} {last : Nat} {text : Text}

theorem Carried.keeps {entry : Entry} {group : Group} {slot : Slot}
    (carried : Carried rest last text entry group) (fills : Fills group slot) :
    Keeps group slot :=
  fills.keeps carried.plainInner carried.plainTrail rfl

theorem slots_closed {entries : List Entry} {groups : List Group} {slots : List Slot}
    (carried : List.Forall₂ (Carried rest last text) entries groups)
    (fills : List.Forall₂ Fills groups slots)
    (others : ∀ entry ∈ entries, entry.position ≠ last) :
    (∀ slot ∈ slots, slot.Closed) ∧ List.Forall₂ Keeps groups slots := by
  induction carried generalizing slots with
  | nil =>
      cases fills
      exact ⟨by simp, .nil⟩
  | @cons entry group entries groups first _ ih =>
      cases fills with
      | cons fill fills =>
          obtain ⟨closed, keeps⟩ :=
            ih fills fun each member => others each (by simp [member])
          have own := fill.closed first.starts (first.movable (others entry (by simp)))
          exact ⟨List.forall_mem_cons.mpr ⟨own, closed⟩, .cons (first.keeps fill) keeps⟩

theorem keeps_inner {groups : List Group} {slots : List Slot}
    (keeps : List.Forall₂ Keeps groups slots) :
    (∀ slot ∈ slots, Stands true slot.inner [])
      ↔ ∀ group ∈ groups, Stands true group.inner [] := by
  induction keeps with
  | nil => simp
  | cons first _ ih => rw [List.forall_mem_cons, List.forall_mem_cons, ih, first.inner]

/-- The entries in their new order, the items that they print as, and what the seams of
the list say about them in front of the tokens `new`. -/
def Seamless (sorted : List Entry) (after : List Node) (last : Nat) (text : Text)
    (new : List Token) : Prop :=
  Token.areSeparate text (movedLineEnd sorted
      ++ (Node.printAll (after.drop
        ((sorted.findIdx fun entry => entry.position == last) + 1))
        ++ joined new)) = true
    ∧ Token.areSeparate (Node.printAll (after.drop last)) (joined new) = true

theorem sorted_last {front : List Entry} {old : Entry} {groups : List Group}
    (carried : List.Forall₂ (Carried rest last text) (front ++ [old]) groups)
    (others : ∀ entry ∈ front, entry.position ≠ last) (is : old.position = last)
    (size : front.length = last) (positive : 0 < last)
    (place : (front ++ [old]).findIdx (fun entry => entry.position == last)
      = front.length)
    (separateMoved : Bool) (header : List TriviaLine) :
    let after := pad separateMoved header (settle (front ++ [old]))
    ∃ slots, List.Forall₂ Keeps groups slots
      ∧ Node.printAll after = TriviaLine.joined header ++ joined (Slot.all slots)
      ∧ ∀ new, Stands true new [] → Replaces rest new →
        ((∀ group ∈ groups, Stands true group.inner [])
          → Seamless (front ++ [old]) after last text new)
        ∧ ∀ lineStart, Stands lineStart (Slot.all slots ++ new) []
          ↔ ∀ group ∈ groups, Stands true group.inner [] := by
  intro after
  obtain ⟨settled, noLineEnd⟩ := settle_of_last (is.trans size.symm)
  have backed := carried.imp fun _ _ => Carried.toBacked
  obtain ⟨slots, fills, printed, later⟩ :=
    pad_slots backed (by simp) separateMoved header
  rw [← settled] at printed later
  obtain ⟨frontGroups, oldGroup, _, rfl, carriedFront, carriedOld, ⟨⟩⟩ :=
    forall₂_split carried
  obtain ⟨frontSlots, oldSlot, _, rfl, fillsFront, fillsOld, ⟨⟩⟩ := forall₂_split fills
  obtain ⟨closed, keeps⟩ := slots_closed carriedFront fillsFront others
  have keeps := forall₂_around keeps (carriedOld.keeps fillsOld) .nil
  have sizeFront : frontSlots.length = last :=
    (carriedFront.length_eq.trans fillsFront.length_eq).symm.trans size
  have final := carriedOld.final is
  refine ⟨_, keeps, printed, fun new stands replaces =>
    ⟨fun alone => ?_, fun lineStart => ?_⟩⟩
  · have own := alone oldGroup (by simp)
    have beside := final.extend oldGroup.trail (by
      simpa using (Replaces.nothing rest).prepend carriedOld.plainTrail) own
    have whole := final.extend _ (replaces.prepend carriedOld.plainTrail) own
    have empty : Node.printAll (after.drop (last + 1)) = [] := by
      rw [later, List.drop_eq_nil_of_le (by simp [sizeFront])]
      rfl
    have only : Node.printAll (after.drop last)
        = joined (oldSlot.lead ++ (oldGroup.inner ++ oldGroup.trail)) := by
      obtain ⟨before, rfl⟩ := Nat.exists_eq_succ_of_ne_zero (Nat.ne_of_gt positive)
      rw [later, List.drop_left' sizeFront, Slot.all_cons, Slot.all_nil,
        List.append_nil, Slot.tokens, fillsOld.inner, fillsOld.trail]
    obtain ⟨lead, free, spelled⟩ := final.printed
    refine ⟨?_, ?_⟩
    · rw [place, size, empty, noLineEnd, spelled]
      exact (areSeparate_tokens free carriedOld.starts beside stands).mpr whole
    · rw [only]
      exact (areSeparate_tokens fillsOld.free carriedOld.starts beside stands).mpr whole
  · have extend : Stands true oldSlot.inner [] →
        Stands true (oldSlot.inner ++ (oldSlot.trail ++ new)) [] := by
      rw [fillsOld.inner, fillsOld.trail]
      exact final.extend _ (replaces.prepend carriedOld.plainTrail)
    rw [Slot.stands_last closed (fillsOld.sound carriedOld.starts) extend lineStart]
    exact keeps_inner keeps

theorem Backed.withTrailing {entry : Entry} {group : Group}
    (backed : Backed entry group) {trail : List Token} {trailing : Text}
    (same : joined trail = trailing) :
    Backed { entry with node := entry.node.withTrailing trailing }
      { group with trail } where
  printed := by rw [Node.segments_withTrailing]; exact backed.printed
  trailing := by rw [Node.trailing, Node.info_withTrailing, same]
  made := backed.made
  free := backed.free
  plain := backed.plain

/-- When another item becomes the last one, the one that was last gets the line end that
moves. -/
theorem settle_backed {front middle : List Entry} {old final : Entry}
    {oldGroup group : Group}
    (distinct : ((front ++ old :: (middle ++ [final])).map Entry.position).Nodup)
    (is : old.position = front.length + middle.length + 1)
    (backed : Backed old oldGroup) (carried : Carried rest last text final group)
    (movable : group.Movable) :
    let sorted := front ++ old :: (middle ++ [final])
    ∃ before after trail, settle sorted = front ++ before :: (middle ++ [after])
      ∧ Backed before
        { oldGroup with trail := oldGroup.trail ++ lineEndTokens (movedLineEnd sorted) }
      ∧ Backed after { group with trail } ∧ content trail = content group.trail
      ∧ Plain trail
      ∧ (Stands true group.inner [] → Stands true (group.inner ++ trail) []) := by
  intro sorted
  rcases settle_of_moved distinct is with ⟨same, empty⟩ | ⟨lineEnd, settled⟩
  · refine ⟨old, final, group.trail, same, ?_, carried.toBacked, rfl,
      carried.plainTrail, movable.beside fun _ => movable.free _ _⟩
    rw [empty]
    simpa [lineEndTokens] using backed
  · obtain ⟨trail, shorter, said, plain, beside⟩ := movable.shorten carried.plainTrail
    rw [← carried.trailing] at shorter
    refine ⟨_, _, trail, settled, backed.withTrailing ?_,
      carried.toBacked.withTrailing shorter, said, plain, beside⟩
    rw [Token.joined_append, joined_lineEndTokens, lineEnd, backed.trailing]

/-- Another item becomes the last one: the seams decide. -/
theorem sorted_moved {front middle : List Entry} {old final : Entry}
    {groups : List Group}
    (carried : List.Forall₂ (Carried rest last text)
      (front ++ old :: (middle ++ [final])) groups)
    (distinct : ((front ++ old :: (middle ++ [final])).map Entry.position).Nodup)
    (before : ∀ entry ∈ front, entry.position ≠ last)
    (behind : ∀ entry ∈ middle ++ [final], entry.position ≠ last)
    (is : old.position = last) (size : last = front.length + middle.length + 1)
    (place : (front ++ old :: (middle ++ [final])).findIdx
      (fun entry => entry.position == last) = front.length)
    (separateMoved : Bool) (header : List TriviaLine) :
    let sorted := front ++ old :: (middle ++ [final])
    let after := pad separateMoved header (settle sorted)
    ∃ slots, List.Forall₂ Keeps groups slots
      ∧ Node.printAll after = TriviaLine.joined header ++ joined (Slot.all slots)
      ∧ ∀ new, Stands true new [] →
        ∀ lineStart, Stands lineStart (Slot.all slots ++ new) []
        ↔ (∀ group ∈ groups, Stands true group.inner [])
        ∧ Seamless sorted after last text new := by
  intro sorted after
  obtain ⟨frontGroups, oldGroup, _, rfl, carriedFront, carriedOld, others⟩ :=
    forall₂_split carried
  obtain ⟨middleGroups, finalGroup, _, rfl, carriedMiddle, carriedFinal, ⟨⟩⟩ :=
    forall₂_split others
  have movable := carriedFinal.movable (behind final (by simp))
  obtain ⟨settledOld, settledFinal, trail, settled, backedOld, backedFinal, said, plain,
      beside⟩ :=
    settle_backed distinct (is.trans size) carriedOld.toBacked carriedFinal movable
  have toBacked {entries : List Entry} {groups : List Group}
      (carried : List.Forall₂ (Carried rest last text) entries groups) :
      List.Forall₂ Backed entries groups := carried.imp fun _ _ => Carried.toBacked
  have backed := forall₂_around (toBacked carriedFront) backedOld
    (forall₂_around (toBacked carriedMiddle) backedFinal .nil)
  obtain ⟨slots, fills, printed, later⟩ :=
    pad_slots backed (by simp) separateMoved header
  rw [← settled] at printed later
  obtain ⟨frontSlots, oldSlot, _, rfl, fillsFront, fillsOld, others⟩ :=
    forall₂_split fills
  obtain ⟨middleSlots, finalSlot, _, rfl, fillsMiddle, fillsFinal, ⟨⟩⟩ :=
    forall₂_split others
  obtain ⟨closedFront, keepsFront⟩ := slots_closed carriedFront fillsFront before
  obtain ⟨closedMiddle, keepsMiddle⟩ := slots_closed carriedMiddle fillsMiddle
    fun entry member => behind entry (List.mem_append_left _ member)
  have keepsOld : Keeps oldGroup oldSlot := fillsOld.keeps carriedOld.plainInner
    (carriedOld.plainTrail.append (plain_lineEndTokens (movedLineEnd_mem _))) (by simp)
  have keepsFinal : Keeps finalGroup finalSlot :=
    fillsFinal.keeps carriedFinal.plainInner plain said
  have keeps := forall₂_around keepsFront keepsOld
    (forall₂_around keepsMiddle keepsFinal .nil)
  have sizeFront : frontSlots.length = front.length :=
    (carriedFront.length_eq.trans fillsFront.length_eq).symm
  have sizeMiddle : middleSlots.length = middle.length :=
    (carriedMiddle.length_eq.trans fillsMiddle.length_eq).symm
  have others : Node.printAll (after.drop (front.length + 1))
      = joined (Slot.all (middleSlots ++ [finalSlot])) := by
    rw [later, List.append_cons, List.drop_left' (by simp [sizeFront])]
  have only : Node.printAll (after.drop last) = joined finalSlot.tokens := by
    have width : (frontSlots ++ [oldSlot] ++ middleSlots).length
        = front.length + middle.length + 1 := by
      simp only [List.length_append, List.length_singleton, sizeFront, sizeMiddle]
      omega
    rw [size, later, List.append_cons, ← List.append_assoc, List.drop_left' width]
    simp
  obtain ⟨lead, free, spelled⟩ := (carriedOld.final is).printed
  have alone : Stands true oldGroup.inner [] →
      Stands true (oldGroup.inner ++ oldGroup.trail) [] :=
    (carriedOld.final is).extend oldGroup.trail (by
      simpa using (Replaces.nothing rest).prepend carriedOld.plainTrail)
  refine ⟨_, keeps, printed, fun new stands lineStart => ?_⟩
  have decided := Slot.stands_moved closedFront closedMiddle
    (fillsOld.sound carriedOld.starts) (fillsFinal.sound carriedFinal.starts)
    fillsOld.trail free (free_lineEndTokens (movedLineEnd_mem _))
    (fillsOld.inner ▸ alone) (by rw [fillsFinal.inner, fillsFinal.trail]; exact beside)
    stands lineStart
  rw [decided, keeps_inner keeps, Seamless, place, others, only, spelled,
    fillsOld.inner]
  simp only [Token.joined_append, joined_lineEndTokens, sorted]

/-- The items of a sorted list stand in front of new tokens exactly when each of them
stands on its own and, if any item moved, the seams hold. -/
theorem sorted_stands {sorted : List Entry} {groups : List Group}
    (carried : List.Forall₂ (Carried rest last text) sorted groups)
    (positions : (sorted.map Entry.position).Perm (List.range (last + 1)))
    (positive : 0 < last) (separateMoved : Bool) (header : List TriviaLine) :
    let after := pad separateMoved header (settle sorted)
    ∃ slots, List.Forall₂ Keeps groups slots
      ∧ Node.printAll after = TriviaLine.joined header ++ joined (Slot.all slots)
      ∧ ∀ new, Stands true new [] → Replaces rest new → ∀ lineStart,
        Stands lineStart (Slot.all slots ++ new) []
          ↔ (∀ group ∈ groups, Stands true group.inner [])
            ∧ (countMoved 0 sorted = 0 ∨ Seamless sorted after last text new) := by
  intro after
  obtain ⟨front, old, back, rfl, is, before, behind, place⟩ := split_last positions
  have size := positions.length_eq
  simp only [List.length_map, List.length_append, List.length_cons,
    List.length_range] at size
  rcases List.eq_nil_or_concat' back with rfl | ⟨middle, final, rfl⟩
  · have sizeFront : front.length = last := by simpa using size
    obtain ⟨slots, keeps, printed, decided⟩ :=
      sorted_last carried before is sizeFront positive place separateMoved header
    refine ⟨slots, keeps, printed, fun new stands replaces lineStart => ?_⟩
    obtain ⟨seamless, decided⟩ := decided new stands replaces
    rw [decided lineStart]
    exact ⟨fun alone => ⟨alone, .inr (seamless alone)⟩, fun both => both.1⟩
  · have sizeLast : last = front.length + middle.length + 1 := by
      simp only [List.length_append, List.length_singleton] at size
      omega
    obtain ⟨slots, keeps, printed, decided⟩ := sorted_moved carried
      (positions.nodup_iff.mpr List.nodup_range) before behind is sizeLast place
        separateMoved header
    refine ⟨slots, keeps, printed, fun new stands _ lineStart => ?_⟩
    -- The entry that was last is not at its place.
    have moves : countMoved 0 (front ++ old :: (middle ++ [final])) ≠ 0 := by
      intro still
      have placed := congrArg (·[front.length]?) (countMoved_eq_zero_iff.mp still)
      simp [is] at placed
      omega
    rw [decided new stands lineStart, or_iff_right moves]

end Arrange

end Lineup
