import Mathlib.Data.List.TakeWhile
import Lineup.Proofs.Text.Utf8
import Lineup.Proofs.Token.Lossless

/-!
# Tokens of well-formed text

The scanners of literals and comments go by single bytes, but they stop in front of a
line end, at the end of the text, or behind an ASCII character. So no token of a
well-formed text is cut inside of a character, and every token of a well-formed text is
well formed.
-/

namespace Lineup

open Text (StartsAnew Orderly WellFormed)

theorem Text.startsAnew_nil : StartsAnew [] := by
  intro byte member
  cases member

theorem Text.startsAnew_of_ascii {byte : UInt8} {rest : Text} (ascii : byte < 0x80) :
    StartsAnew (byte :: rest) := by
  intro other member
  cases member
  rw [Bool.eq_false_iff, Ne, Utf8.isContinuation_iff]
  have small := UInt8.lt_iff_toNat_lt.mp ascii
  exact fun continues => absurd small (Nat.not_lt.mpr continues.1)

theorem Byte.ascii_of_isLineEnd {byte : UInt8} (is : Byte.isLineEnd byte = true) :
    byte < 0x80 := by
  simp only [Byte.isLineEnd, Bool.or_eq_true, beq_iff_eq] at is
  rcases is with rfl | rfl <;> decide

namespace Literal

/-- A byte at the bottom of the stack that is passed over is the slash that ends a
comment. -/
def Sound (enclosures : List Enclosure) (text : Text) : Prop :=
  enclosures.getLast? = some .skip → enclosures = [.skip] ∧ text.head? = some Byte.slash

theorem openQuote_getLast? (verbatim interpolated : Bool) (rest : Text) :
    ∃ enclosure, (openQuote verbatim interpolated rest).getLast? = some enclosure
      ∧ enclosure ≠ .skip := by
  simp only [openQuote]
  split
  · exact ⟨_, rfl, nofun⟩
  · exact ⟨_, List.getLast?_concat, nofun⟩

theorem Sound.of_getLast? {enclosures : List Enclosure} {text : Text}
    {enclosure : Enclosure} (last : enclosures.getLast? = some enclosure)
    (other : enclosure ≠ .skip) :
    Sound enclosures text := by
  intro skips
  rw [last, Option.some.injEq] at skips
  exact absurd skips other

theorem ascii_of_advance {inner : Enclosure} {byte : UInt8} {rest : Text}
    (ended : inner.advance byte rest = []) : inner = .skip ∨ byte < 0x80 := by
  have opens (verbatim interpolated : Bool) : openQuote verbatim interpolated rest
      ≠ [] := by
    obtain ⟨enclosure, last, -⟩ := openQuote_getLast? verbatim interpolated rest
    intro empty
    rw [empty] at last
    cases last
  cases inner with
  | skip => exact .inl rfl
  | opening verbatim interpolated =>
      simp only [Enclosure.advance] at ended
      split at ended
      · cases ended
      split at ended
      · cases ended
      · exact absurd ended (opens _ _)
  | quoted verbatim interpolated =>
      simp only [Enclosure.advance] at ended
      split at ended
      · rename_i quote
        rw [eq_of_beq quote]
        exact .inr (by decide)
      · split at ended
        · cases ended
        split at ended
        · split at ended <;> cases ended
        · cases ended
  | raw quotes run =>
      simp only [Enclosure.advance] at ended
      split at ended
      · rename_i quote
        rw [eq_of_beq quote]
        exact .inr (by decide)
      · cases ended
  | hole depth =>
      simp only [Enclosure.advance] at ended
      split at ended
      · cases ended
      split at ended
      · rename_i brace
        rw [eq_of_beq brace]
        exact .inr (by decide)
      · repeat' split at ended
        all_goals simp at ended
  | character =>
      simp only [Enclosure.advance] at ended
      split at ended
      · cases ended
      split at ended
      · rename_i apostrophe
        rw [eq_of_beq apostrophe]
        exact .inr (by decide)
      · cases ended
  | comment =>
      simp only [Enclosure.advance] at ended
      split at ended <;> cases ended

theorem sound_advance (inner : Enclosure) (byte : UInt8) (rest : Text) :
    Sound (inner.advance byte rest) rest := by
  have opens (verbatim interpolated : Bool) :
      Sound (openQuote verbatim interpolated rest) rest := by
    obtain ⟨enclosure, last, other⟩ := openQuote_getLast? verbatim interpolated rest
    exact .of_getLast? last other
  have outside : Sound [] rest := nofun
  cases inner with
  | skip => exact outside
  | opening verbatim interpolated =>
      simp only [Enclosure.advance]
      split
      · exact .of_getLast? rfl nofun
      split
      · exact .of_getLast? rfl nofun
      · exact opens _ _
  | quoted verbatim interpolated =>
      simp only [Enclosure.advance]
      repeat' split
      all_goals first | exact outside | exact .of_getLast? rfl nofun
  | raw quotes run =>
      simp only [Enclosure.advance]
      repeat' split
      all_goals first | exact outside | exact .of_getLast? rfl nofun
  | hole depth =>
      simp only [Enclosure.advance]
      repeat' split
      all_goals first
        | exact outside
        | exact .of_getLast? rfl nofun
        | exact .of_getLast? List.getLast?_concat nofun
  | character =>
      simp only [Enclosure.advance]
      repeat' split
      all_goals first | exact outside | exact .of_getLast? rfl nofun
  | comment =>
      simp only [Enclosure.advance]
      split
      · rename_i closes
        rw [Bool.and_eq_true, beq_iff_eq, beq_iff_eq] at closes
        exact fun _ => ⟨rfl, closes.2⟩
      · exact .of_getLast? rfl nofun

/-- Scanning stops where a character starts. The scanned text has the text `before` in
front. -/
theorem startsAnew_reach (before : Text) {enclosures : List Enclosure} {text : Text}
    (sound : Sound enclosures text) (present : enclosures ≠ [])
    (orderly : Orderly text) :
    StartsAnew ((before ++ text).drop (reach enclosures text before.length)) := by
  induction text generalizing before enclosures with
  | nil =>
      obtain ⟨inner, outer, rfl⟩ := List.exists_cons_of_ne_nil present
      rw [reach, List.append_nil, List.drop_length]
      exact Text.startsAnew_nil
  | cons byte rest ih =>
      obtain ⟨inner, outer, rfl⟩ := List.exists_cons_of_ne_nil present
      have later {enclosures : List Enclosure} (sound : Sound enclosures rest)
          (present : enclosures ≠ []) : StartsAnew
            ((before ++ byte :: rest).drop
              (reach enclosures rest (before.length + 1))) := by
        have next := ih (before ++ [byte]) sound present orderly.tail
        rwa [List.append_assoc, List.length_append] at next
      have bottom (enclosures : List Enclosure) (more : outer ≠ []) :
          Sound (enclosures ++ outer) rest := by
        intro last
        rw [List.getLast?_append_of_ne_nil _ more] at last
        have skips := (sound (by rwa [List.getLast?_cons_of_ne_nil more])).1
        exact absurd (List.cons.inj skips).2 more
      rw [reach]
      split
      · rename_i stops
        split
        · rw [List.drop_left]
          refine Text.startsAnew_of_ascii (Byte.ascii_of_isLineEnd ?_)
          cases inner <;> simp_all [Enclosure.endsBefore]
        · rename_i more
          rw [List.isEmpty_iff] at more
          exact later (bottom [] more) more
      · by_cases ended : inner.advance byte rest ++ outer = []
        · obtain ⟨ends, empty⟩ := List.append_eq_nil_iff.mp ended
          have behind : (before ++ byte :: rest).drop (before.length + 1) = rest := by
            rw [List.append_cons]
            exact List.drop_left' (List.length_append ..)
          rw [ended, reach, behind]
          apply orderly.head
          rcases ascii_of_advance ends with skips | ascii
          · rw [empty, skips] at sound
            have slash := (sound rfl).2
            rw [List.head?_cons, Option.some.injEq] at slash
            rw [slash]
            decide
          · exact ascii
        · refine later ?_ ended
          by_cases empty : outer = []
          · rw [empty, List.append_nil]
            exact sound_advance inner byte rest
          · exact bottom _ empty

theorem startsAnew_width {enclosures : List Enclosure} {text : Text}
    (sound : Sound enclosures text) (present : enclosures ≠ [])
    (orderly : Orderly text) :
    StartsAnew (text.drop (width enclosures text)) :=
  startsAnew_reach [] sound present orderly

end Literal

namespace Token

theorem startsAnew_lineWidth (text : Text) :
    StartsAnew (text.drop (lineWidth text)) := by
  induction text with
  | nil => exact Text.startsAnew_nil
  | cons byte rest ih =>
      cases ends : Byte.isLineEnd byte with
      | true =>
          rw [lineWidth, List.takeWhile_cons_of_neg (by simp [ends])]
          exact Text.startsAnew_of_ascii (Byte.ascii_of_isLineEnd ends)
      | false =>
          rw [lineWidth, List.takeWhile_cons_of_pos (by simp [ends])]
          exact ih

theorem startsAnew_of_ascii {byte : UInt8} {rest : Text} {width : Nat}
    (orderly : Orderly (byte :: rest)) (ascii : byte < 0x80)
    (others : ∀ each ∈ rest.take width, each < 0x80) :
    StartsAnew (rest.drop width) := by
  induction width generalizing byte rest with
  | zero => exact orderly.head ascii
  | succ width ih =>
      cases rest with
      | nil => exact Text.startsAnew_nil
      | cons next rest =>
          rw [List.take_succ_cons, List.forall_mem_cons] at others
          exact ih orderly.tail others.1 others.2

theorem ascii_of_isInlineSpace {byte : UInt8} (is : Byte.isInlineSpace byte = true) :
    byte < 0x80 := by
  simp only [Byte.isInlineSpace, Bool.or_eq_true, beq_iff_eq] at is
  rcases is with ((rfl | rfl) | rfl) | rfl <;> decide

theorem ascii_of_isDigit {byte : UInt8} (is : Byte.isDigit byte = true) :
    byte < 0x80 := by
  simp only [Byte.isDigit, Bool.and_eq_true, decide_eq_true_eq] at is
  exact UInt8.lt_of_le_of_lt is.2 (by decide)

theorem ascii_of_isAlpha {byte : UInt8} (is : Byte.isAlpha byte = true) :
    byte < 0x80 := by
  simp only [Byte.isAlpha, Bool.or_eq_true, Bool.and_eq_true, decide_eq_true_eq] at is
  rcases is with is | is
  · exact UInt8.lt_of_le_of_lt is.2 (by decide)
  · exact UInt8.lt_of_le_of_lt is.2 (by decide)

theorem ascii_numberWidth (text : Text) :
    ∀ byte ∈ text.take (numberWidth text), byte < 0x80 := by
  induction text with
  | nil => simp
  | cons byte rest ih =>
      rw [numberWidth]
      split
      · rename_i continues
        simp only [Bool.or_eq_true, Bool.and_eq_true, beq_iff_eq] at continues
        rw [List.take_succ_cons, List.forall_mem_cons]
        refine ⟨?_, ih⟩
        rcases continues with ((digit | alpha) | rfl) | dot
        · exact ascii_of_isDigit digit
        · exact ascii_of_isAlpha alpha
        · decide
        · rw [dot.1]
          decide
      · simp

theorem ascii_of_mem_pairs {pair : Text} (member : pair ∈ pairs) :
    ∀ byte ∈ pair, byte < 0x80 := by
  revert pair
  decide +kernel

theorem identifierWidth_append (more : Text) (rest : Text) :
    identifierWidth more.length (more ++ rest)
      = more.length + identifierWidth 0 rest := by
  induction more with
  | nil => simp
  | cons byte more ih =>
      rw [List.length_cons, List.cons_append, identifierWidth, ih]
      omega

theorem startsAnew_identifierWidth {text : Text} (formed : WellFormed text) :
    StartsAnew (text.drop (identifierWidth 0 text)) := by
  obtain ⟨characters, rfl⟩ := formed
  induction characters with
  | nil => exact Text.startsAnew_nil
  | cons character characters ih =>
      have whole : WellFormed (Text.ofChars (character :: characters)) := ⟨_, rfl⟩
      obtain ⟨lead, more, bytes, spells⟩ := Utf8.write_spells character
      rw [Text.ofChars_cons, bytes, List.cons_append] at whole ⊢
      rw [identifierWidth, spells.read]
      simp only
      split
      · rw [identifierWidth_append, List.drop_succ_cons, ← List.drop_drop,
          List.drop_left]
        exact ih
      · exact whole.startsAnew

/-- Every token ends where a character starts. -/
theorem Reads.startsAnew {lineStart : Bool} {byte : UInt8} {rest : Text}
    {kind : TokenKind} {width : Nat} (reads : Reads lineStart byte rest kind width)
    (formed : WellFormed (byte :: rest)) : StartsAnew (rest.drop width) := by
  have orderly := formed.orderly
  cases reads with
  | lineFeed is =>
      subst is
      exact orderly.head (by decide)
  | carriageReturn is =>
      subst is
      apply startsAnew_of_ascii orderly (by decide)
      intro each member
      split at member
      · rename_i next
        obtain ⟨others, rfl⟩ := List.head?_eq_some_iff.mp (eq_of_beq next)
        simp only [List.take_succ_cons, List.take_zero, List.mem_singleton] at member
        rw [member]
        decide
      · cases member
  | space is =>
      apply startsAnew_of_ascii orderly (ascii_of_isInlineSpace is)
      intro each member
      rw [← List.prefix_iff_eq_take.mp (List.takeWhile_prefix _)] at member
      exact ascii_of_isInlineSpace (List.mem_takeWhile_imp member)
  | directive is => exact startsAnew_lineWidth rest
  | lineComment is => exact startsAnew_lineWidth rest
  | blockComment is =>
      exact Literal.startsAnew_width (.of_getLast? rfl nofun) (by simp) orderly.tail
  | quoted is =>
      obtain ⟨enclosure, last, other⟩ := Literal.openQuote_getLast? false false rest
      apply Literal.startsAnew_width (.of_getLast? last other) _ orderly.tail
      intro empty
      rw [empty] at last
      cases last
  | interpolated is =>
      exact Literal.startsAnew_width (.of_getLast? rfl nofun) (by simp) orderly.tail
  | verbatim is =>
      exact Literal.startsAnew_width (.of_getLast? rfl nofun) (by simp) orderly.tail
  | character is =>
      exact Literal.startsAnew_width (.of_getLast? rfl nofun) (by simp) orderly.tail
  | dollar is =>
      subst is
      exact orderly.head (by decide)
  | number is =>
      exact startsAnew_of_ascii orderly (ascii_of_isDigit is) (ascii_numberWidth rest)
  | atSign is =>
      subst is
      exact orderly.head (by decide)
  | verbatimName is long =>
      subst is
      apply startsAnew_identifierWidth
      have cut : WellFormed ([Byte.atSign] ++ rest) := formed
      exact (cut.split (orderly.head (by decide))).2
  | name =>
      obtain ⟨character, more, others, spells, rfl, later⟩ := formed.uncons
      rw [spells.read, identifierWidth_append, ← List.drop_drop, List.drop_left]
      exact startsAnew_identifierWidth later
  | punctuation =>
      rw [punctuationWidth]
      split
      · rename_i paired
        have ascii := ascii_of_mem_pairs (List.contains_iff_mem.mp paired)
        rw [List.forall_mem_cons] at ascii
        exact startsAnew_of_ascii orderly ascii.1 ascii.2
      · obtain ⟨character, more, others, spells, rfl, later⟩ := formed.uncons
        rw [spells.read, List.drop_left]
        exact later.startsAnew

theorem wellFormed_lexFrom (lineStart : Bool) (offset : Nat) {text : Text}
    (formed : WellFormed text) :
    ∀ token ∈ lexFrom lineStart offset text, WellFormed token.text := by
  induction size : text.length using Nat.strongRecOn generalizing text lineStart
    offset with
  | ind size ih =>
      subst size
      cases text with
      | nil => simp
      | cons byte rest =>
          have reads := first_reads lineStart byte rest
          have anew := reads.startsAnew formed
          rw [← List.take_append_drop _ rest, ← List.cons_append] at formed
          obtain ⟨first, later⟩ := formed.split anew
          rw [lexFrom_cons reads, List.forall_mem_cons]
          refine ⟨first, ih _ ?_ _ _ later rfl⟩
          rw [List.length_drop, List.length_cons]
          omega

/-- Every token of a well-formed text is well formed. -/
theorem wellFormed_lex {source : Text} (formed : WellFormed source) :
    ∀ token ∈ lex source, WellFormed token.text :=
  wellFormed_lexFrom true 0 formed

end Token

end Lineup
