import Lineup.Proofs.Syntax.Ahead
import Lineup.Proofs.Syntax.Grammar
import Lineup.Proofs.Token.Swaps

/-!
# What may follow an item instead

An item is read in the same way in front of other tokens when these agree with the old
ones up to the first significant token. Where a line ends behind the item, it is enough
that neither an equals sign nor a semicolon comes next.
-/

namespace Lineup

namespace Span

/-- Both start with the same trivia, and the same significant token follows, or
nothing. -/
inductive Agree : List Token → List Token → Prop where
  | nil : Agree [] []
  | trivia {token : Token} {after others : List Token} (is : token.isTrivia = true)
      (agree : Agree after others) : Agree (token :: after) (token :: others)
  | solid {token : Token} (is : token.isTrivia = false) (after others : List Token) :
      Agree (token :: after) (token :: others)

namespace Agree

variable {after others : List Token}

theorem prepend (agree : Agree after others) (tokens : List Token) :
    Agree (tokens ++ after) (tokens ++ others) := by
  induction tokens with
  | nil => exact agree
  | cons token tokens ih =>
      cases is : token.isTrivia with
      | true => exact .trivia is ih
      | false => exact .solid is _ _

theorem refl (tokens : List Token) : Agree tokens tokens := by
  have all := Agree.nil.prepend tokens
  rwa [List.append_nil] at all

theorem nextIs_eq (agree : Agree after others) (spelling : String) :
    nextIs spelling after = nextIs spelling others := by
  induction agree with
  | nil => rfl
  | trivia is agree ih => simpa [nextIs, is] using ih
  | solid is => simp [nextIs, is]

theorem clear (agree : Agree after others) (clear : Clear after) : Clear others := by
  constructor
  · rw [← agree.nextIs_eq, clear.1]
  · rw [← agree.nextIs_eq, clear.2]

theorem trailing_eq (agree : Agree after others) :
    trailing after = trailing others := by
  induction agree with
  | nil => rfl
  | trivia is agree ih => simp only [trailing, ih]
  | solid is => simp [trailing, is]

theorem akin (agree : Agree after others) : Akin after others where
  first := by
    cases agree with
    | nil => exact .inl rfl
    | trivia => exact .inl rfl
    | solid => exact .inl rfl
  equals := agree.nextIs_eq "="
  semicolon := by
    induction agree with
    | nil => rfl
    | trivia is agree ih => simp only [semicolon, ih]
    | solid is => simp [semicolon, is]

theorem eq_of_trivia (agree : Agree after others)
    (trivia : ∀ token ∈ after, token.isTrivia = true) :
    others = after := by
  induction agree with
  | nil => rfl
  | trivia is agree ih =>
      rw [ih fun token member => trivia token (List.mem_cons_of_mem _ member)]
  | solid is =>
      have ignored := trivia _ List.mem_cons_self
      rw [is] at ignored
      cases ignored

end Agree

theorem trailing_of_newline {trail after : List Token}
    (trails : trailing (trail ++ after) = trail.length)
    (ends : ∃ token ∈ trail, token.kind = .newline) (others : List Token) :
    trailing (trail ++ others) = trail.length := by
  induction trail with
  | nil => simp at ends
  | cons token trail ih =>
      simp only [List.cons_append, trailing, List.length_cons] at trails ⊢
      split at trails
      · cases trails
      · rename_i inline
        rw [if_neg inline]
        split at trails
        · rename_i line
          rw [if_pos line]
          exact trails
        · rename_i other
          rw [if_neg other, ih (Nat.succ.inj trails)]
          obtain ⟨newline, member, is⟩ := ends
          refine ⟨newline, (List.mem_cons.mp member).resolve_left ?_, is⟩
          rintro rfl
          exact other (by simpa using is)

/-- The tokens `others` may follow an item and its trailing trivia in the place of the
tokens `after`. -/
inductive Follow (trail after others : List Token) : Prop where
  | line (fed : Token.LineFed trail) (clear : Clear after) (clear' : Clear others)
  | agree (agree : Agree after others)

namespace Follow

variable {trail after others : List Token}

theorem akin (follow : Follow trail after others) :
    Akin (trail ++ after) (trail ++ others) := by
  cases follow with
  | line fed clear clear' =>
      constructor
      · obtain ⟨token, trail, rfl⟩ := List.exists_cons_of_ne_nil fed.ne_nil
        exact .inl rfl
      · exact nextIs_append (clear.1.trans clear'.1.symm) trail
      · exact clear.semicolon_append clear' trail
  | agree agree => exact agree.akin.prepend trail

theorem trailing_eq (follow : Follow trail after others)
    (trails : trailing (trail ++ after) = trail.length) :
    trailing (trail ++ others) = trail.length := by
  cases follow with
  | line fed =>
      refine trailing_of_newline trails ?_ others
      cases fed with
      | intro front is => exact ⟨_, by simp, is⟩
  | agree agree => rw [← (agree.prepend trail).trailing_eq, trails]

end Follow

end Span

namespace Parser

open Lineup.Span (Follow)

/-- A body is closed in the same way in front of all that may follow. -/
theorem Closes.follow {scope : Scope} {closing trail after others : List Token}
    {final : List Segment} (closes : Closes scope closing trail after final)
    (follow : Follow trail after others) :
    Closes scope closing trail others final := by
  have still (empty : trail = []) (trivia : ∀ token ∈ after, token.isTrivia = true) :
      others = after := by
    cases follow with
    | line fed => exact absurd empty fed.ne_nil
    | agree agree => exact agree.eq_of_trivia trivia
  cases closes with
  | @brace lead final trail rest brace braced trivia closing ends trails =>
      refine .brace braced trivia closing ?_ (follow.trailing_eq trails)
      rw [← (follow.akin.prepend final).semicolon, ends]
  | text braced trivia =>
      rw [still rfl (by simp)]
      exact .text braced trivia
  | nothing plain trivia =>
      rw [still rfl trivia]
      exact .nothing plain trivia

/-- An item without a body is read in front of all that may follow. -/
theorem Parsed.leaf_follow {scope : Scope} (id : Nat) {kind : NodeKind} {first : Token}
    {head core trail after : List Token} (starts : first.isTrivia = false)
    (inside : (scope.isBraced && first.is closeBrace) = false)
    (reads : Item.next scope first (core ++ (trail ++ after))
      = .leaf kind head (core.length + 1))
    (trails : Span.trailing (trail ++ after) = trail.length)
    (closed : Span.closesAttributes kind head = true) {lead others : List Token}
    (trivia : ∀ token ∈ lead, token.isTrivia = true)
    (follow : Follow trail after others) :
    Parsed scope
      [.mk { id, kind, leading := Token.joined lead,
             trailing := Token.joined trail, head }
        [.text (Token.joined (first :: core))]]
      (lead ++ (first :: core ++ trail)) others := by
  have read := @Parsed.leaf scope id kind first head lead core trail [] others [] trivia
    starts inside (Item.next_leaf starts follow.akin closed reads)
    (follow.trailing_eq trails) .nil
  simpa using read

/-- An item with a body is read in front of all that may follow, whatever its body
becomes. -/
theorem Parsed.block_follow {scope inner : Scope} (id : Nat) {kind : NodeKind}
    {first : Token} {head header opening body body' closing trail after : List Token}
    {members : List Node} {final : List Segment} (starts : first.isTrivia = false)
    (inside : (scope.isBraced && first.is closeBrace) = false)
    (reads : Item.next scope first
      (header ++ (opening ++ (body ++ (closing ++ (trail ++ after)))))
        = .block kind head inner (header.length + 1))
    (opens : Span.trailing (opening ++ (body ++ (closing ++ (trail ++ after))))
      = opening.length)
    (closes : Closes inner closing trail after final)
    (closed : Span.closesAttributes kind head = true) {lead others : List Token}
    (trivia : ∀ token ∈ lead, token.isTrivia = true)
    (follow : Follow trail after others)
    (within : Parsed inner members body' (closing ++ (trail ++ others)))
    (entered : Follow opening (body ++ (closing ++ (trail ++ after)))
      (body' ++ (closing ++ (trail ++ others)))) :
    Parsed scope
      [.mk { id, kind, leading := Token.joined lead,
             trailing := Token.joined trail, head }
        (.text (Token.joined (first :: header) ++ Token.joined opening)
          :: (inner.body members).segments ++ final)]
      (lead ++ (first :: header ++ (opening ++ (body' ++ closing)) ++ trail))
        others := by
  have read := @Parsed.block scope inner id kind first head lead header opening body'
    closing trail [] others [] members final trivia starts inside
    (Item.next_block starts closed reads _) (entered.trailing_eq opens) within
    (closes.follow follow) .nil
  simpa using read

end Parser

end Lineup
