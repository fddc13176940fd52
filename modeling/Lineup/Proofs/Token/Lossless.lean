import Mathlib.Data.List.Basic
import Lineup.Proofs.Token.Reads

/-!
# Lexing without loss

Every token is a slice of the source text: no scanner reaches past the end of the text,
each token starts where the one before it stops, and the texts of the tokens, put
together, are the source text.
-/

namespace Lineup

namespace Literal

/-- The scanner never moves backwards. -/
theorem le_reach (enclosures : List Enclosure) (text : Text) (position : Nat) :
    position ≤ reach enclosures text position := by
  induction text generalizing enclosures position with
  | nil => cases enclosures <;> simp [reach]
  | cons byte rest ih =>
      cases enclosures with
      | nil => simp [reach]
      | cons inner outer =>
          simp only [reach]
          split
          · split
            · exact Nat.le_refl _
            · exact Nat.le_of_succ_le (ih outer (position + 1))
          · exact Nat.le_of_succ_le (ih _ (position + 1))

theorem reach_le (enclosures : List Enclosure) (text : Text) (position : Nat) :
    reach enclosures text position ≤ position + text.length := by
  induction text generalizing enclosures position with
  | nil => cases enclosures <;> simp [reach]
  | cons byte rest ih =>
      cases enclosures with
      | nil => simp [reach]
      | cons inner outer =>
          simp only [reach, List.length_cons]
          split
          · split
            · omega
            · have bound := ih outer (position + 1)
              omega
          · have bound := ih (inner.advance byte rest ++ outer) (position + 1)
            omega

theorem width_le (enclosures : List Enclosure) (text : Text) :
    width enclosures text ≤ text.length := by
  have bound := reach_le enclosures text 0
  rwa [Nat.zero_add] at bound

end Literal

theorem Utf8.read_width_le (lead : UInt8) (rest : Text) :
    (Utf8.read lead rest).2 ≤ rest.length := by
  simp only [Utf8.read, Utf8.read?]
  repeat' split
  all_goals simp

namespace Token

theorem lineWidth_le (text : Text) : lineWidth text ≤ text.length :=
  (List.takeWhile_sublist _).length_le

theorem numberWidth_le (text : Text) : numberWidth text ≤ text.length := by
  induction text with
  | nil => simp [numberWidth]
  | cons byte rest ih =>
      simp only [numberWidth, List.length_cons]
      split <;> omega

theorem identifierWidth_le (covered : Nat) (text : Text) :
    identifierWidth covered text ≤ text.length := by
  induction text generalizing covered with
  | nil => simp [identifierWidth]
  | cons byte rest ih =>
      cases covered with
      | succ more => simpa [identifierWidth] using ih more
      | zero =>
          simp only [identifierWidth, List.length_cons]
          split
          · exact Nat.succ_le_succ (ih _)
          · exact Nat.zero_le _

theorem length_of_mem_pairs {pair : Text} (member : pair ∈ pairs) :
    pair.length = 2 := by
  revert pair
  decide +kernel

theorem punctuationWidth_le (byte : UInt8) (rest : Text) :
    punctuationWidth byte rest ≤ rest.length := by
  simp only [punctuationWidth]
  split
  · next paired =>
      have size := length_of_mem_pairs (List.contains_iff_mem.mp paired)
      simp only [List.length_cons, List.length_take] at size
      omega
  · exact Utf8.read_width_le byte rest

/-- The first token lies within the text. -/
theorem Reads.width_le {lineStart : Bool} {byte : UInt8} {rest : Text}
    {kind : TokenKind} {width : Nat} (reads : Reads lineStart byte rest kind width) :
    width ≤ rest.length := by
  cases reads with
  | lineFeed | dollar | atSign => exact Nat.zero_le _
  | carriageReturn =>
      cases rest with
      | nil => simp
      | cons next after => split <;> simp
  | space => exact (List.takeWhile_sublist _).length_le
  | directive | lineComment => exact lineWidth_le rest
  | blockComment | quoted | interpolated | verbatim | character =>
      exact Literal.width_le _ rest
  | number => exact numberWidth_le rest
  | verbatimName | name => exact identifierWidth_le _ rest
  | punctuation => exact punctuationWidth_le byte rest

@[simp] theorem joined_nil : joined [] = [] := rfl

@[simp] theorem joined_cons (token : Token) (tokens : List Token) :
    joined (token :: tokens) = token.text ++ joined tokens := rfl

@[simp] theorem joined_append (left right : List Token) :
    joined (left ++ right) = joined left ++ joined right := List.flatMap_append

@[simp] theorem lexFrom_nil (lineStart : Bool) (offset : Nat) :
    lexFrom lineStart offset [] = [] := by
  rw [lexFrom]

/-- The first token of a text, and the tokens of the text after it. -/
theorem lexFrom_cons {lineStart : Bool} {byte : UInt8} {rest : Text} {kind : TokenKind}
    {width : Nat} (reads : Reads lineStart byte rest kind width) (offset : Nat) :
    lexFrom lineStart offset (byte :: rest) =
      { kind, text := byte :: rest.take width, offset } ::
        lexFrom (startsLine lineStart kind) (offset + width + 1) (rest.drop width) := by
  have bound := reads.width_le
  rw [lexFrom, reads.first_eq]
  simp only [stop, List.length_cons, List.length_take, Nat.min_eq_left bound,
    Nat.add_assoc]

/-- The texts of the tokens, put together, are the source text. -/
@[simp] theorem joined_lexFrom (lineStart : Bool) (offset : Nat) (text : Text) :
    joined (lexFrom lineStart offset text) = text := by
  induction size : text.length using Nat.strongRecOn generalizing text lineStart
    offset with
  | ind size ih =>
      subst size
      cases text with
      | nil => simp
      | cons byte rest =>
          rw [lexFrom_cons (first_reads lineStart byte rest), joined_cons]
          rw [ih _ (by simp only [List.length_drop, List.length_cons]; omega) _ _ _ rfl]
          simp

/-- Lexing loses nothing. -/
theorem joined_lex (source : Text) : joined (lex source) = source :=
  joined_lexFrom true 0 source

/-- Every token is the slice of the source text between its two offsets, and lies within
it. -/
theorem lexFrom_slice (lineStart : Bool) (offset : Nat) (before text : Text)
    (starts : offset = before.length) :
    ∀ token ∈ lexFrom lineStart offset text,
      token.stop ≤ (before ++ text).length
        ∧ textBetween (before ++ text) token token = token.text := by
  induction size : text.length using Nat.strongRecOn generalizing text before lineStart
    offset with
  | ind size ih =>
      subst size
      cases text with
      | nil => simp
      | cons byte rest =>
          have reads := first_reads lineStart byte rest
          have bound := reads.width_le
          intro token member
          rw [lexFrom_cons reads, List.mem_cons] at member
          rcases member with rfl | later
          · have taken : (rest.take (first lineStart byte rest).2).length
                = (first lineStart byte rest).2 := by simp [bound]
            simp only [stop, textBetween, List.length_cons, List.length_append, taken,
              starts]
            refine ⟨by omega, ?_⟩
            rw [List.take_append, List.drop_append]
            simp
          · have smaller : (rest.drop (first lineStart byte rest).2).length
                < (byte :: rest).length := by
              simp only [List.length_drop, List.length_cons]; omega
            have slice := ih _ smaller
              (startsLine lineStart (first lineStart byte rest).1)
              (offset + (first lineStart byte rest).2 + 1)
              (before ++ byte :: rest.take (first lineStart byte rest).2)
              (rest.drop (first lineStart byte rest).2)
                (by simp [starts, bound]; omega) rfl token later
            simpa using slice

end Token

end Lineup
