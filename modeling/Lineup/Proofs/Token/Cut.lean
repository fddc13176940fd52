import Lineup.Proofs.Text.Utf8
import Lineup.Proofs.Token.Lossless

/-!
# Looking past the end of a token

The lexer looks a little past the end of a token before it decides where the token ends.
When the text behind a token is cut off at a place where a token ends, or replaced by a
text that starts in the same way, the lexer still finds the same token. A text starts
"in the same way" when the two texts agree up to a byte at which every look ahead stops.
-/

namespace Lineup

/-- The bytes at which every look past the end of a token stops: neither a point, nor a
part of a longer character, nor a sign of a string literal. -/
def Byte.isDecisive (byte : UInt8) : Bool :=
  byte < 0x80 && byte != Byte.dot && byte != Byte.atSign && byte != Byte.dollar
    && byte != Byte.quote

/-- A decisive byte is none of the bytes behind which the lexer looks further. -/
theorem Byte.isDecisive.spec {byte : UInt8} (decisive : Byte.isDecisive byte = true) :
    byte < 0x80 ∧ byte ≠ Byte.dot ∧ (byte == Byte.atSign) = false
      ∧ (byte == Byte.dollar) = false
      ∧ (byte == Byte.quote) = false := by
  simpa [Byte.isDecisive, and_assoc] using decisive

/-- The second text can stand for the first one behind a token: there is nothing, or the
two agree up to a decisive byte. -/
inductive Behind : Text → Text → Prop where
  | nothing (text : Text) : Behind text []
  | same (shared : Text) {byte : UInt8} (decisive : Byte.isDecisive byte = true)
      (old new : Text) : Behind (shared ++ byte :: old) (shared ++ byte :: new)

namespace Behind

variable {old new : Text}

/-- The next byte is the same, unless there is none any more. -/
theorem head? (behind : Behind old new) (text : Text) :
    (text ++ new).head? = (text ++ old).head? ∨ (text = [] ∧ new = []) := by
  cases text with
  | cons byte text => exact .inl rfl
  | nil =>
      cases behind with
      | nothing => exact .inr ⟨rfl, rfl⟩
      | same shared => cases shared <;> exact .inl rfl

end Behind

theorem takeWhile_cut {old new : Text} (behind : Behind old new) (accept : UInt8 → Bool)
    (text : Text) (inside : ((text ++ old).takeWhile accept).length ≤ text.length) :
    (text ++ new).takeWhile accept = (text ++ old).takeWhile accept := by
  induction text with
  | nil =>
      have empty : old.takeWhile accept = [] := by simpa using inside
      cases behind with
      | nothing => simp [empty]
      | same shared =>
          cases shared <;> simp_all [List.takeWhile_cons]
  | cons byte text ih =>
      by_cases accepted : accept byte
      · simp only [List.cons_append, List.takeWhile_cons, accepted, if_true,
          List.length_cons, Nat.add_le_add_iff_right] at inside ⊢
        rw [ih inside]
      · simp [accepted]

namespace Literal

/-- A skipped byte, or one that does not end the innermost construct, moves the scanner
on. -/
theorem lt_reach {inner : Enclosure} {outer : List Enclosure} {byte : UInt8}
    {rest : Text} (stays : inner.endsBefore byte = false) (position : Nat) :
    position < reach (inner :: outer) (byte :: rest) position := by
  simp only [reach, stays]
  exact le_reach _ rest (position + 1)

theorem replicate_skip_le_reach (count : Nat) (outer : List Enclosure) (text : Text)
    (position : Nat) (present : count ≤ text.length) :
    position + count ≤ reach (List.replicate count .skip ++ outer) text position := by
  induction count generalizing text position with
  | zero => exact le_reach _ _ _
  | succ count ih =>
      cases text with
      | nil => simp at present
      | cons byte rest =>
          simp only [List.length_cons, Nat.add_le_add_iff_right] at present
          have later := ih rest (position + 1) present
          simp only [List.replicate_succ, List.cons_append, reach, Enclosure.endsBefore,
            Enclosure.advance, List.nil_append]
          simp only [Bool.false_eq_true, if_false]
          omega

theorem opensString_append {text : Text} (opens : opensString text = true)
    (more : Text) :
    opensString (text ++ more) = true := by
  induction text with
  | nil => simp [opensString] at opens
  | cons byte text ih =>
      simp only [opensString, List.cons_append, Bool.or_eq_true,
        Bool.and_eq_true] at opens ⊢
      exact opens.imp_right fun sign => ⟨sign.1, ih sign.2⟩

theorem opensString_same (text : Text) {byte : UInt8}
    (decisive : Byte.isDecisive byte = true) (old new : Text) :
    opensString (text ++ byte :: new) = opensString (text ++ byte :: old) := by
  induction text with
  | nil =>
      obtain ⟨-, -, atSign, dollar, quote⟩ := Byte.isDecisive.spec decisive
      simp [opensString, atSign, dollar, quote]
  | cons first text ih => simp [opensString, ih]

theorem opensString_of_reach_le (text old : Text) (verbatim interpolated : Bool)
    (outer : List Enclosure) (position : Nat) (opens : opensString (text ++ old) = true)
    (inside : reach (.opening verbatim interpolated :: outer) (text ++ old) position
      ≤ position + text.length) : opensString text = true := by
  induction text generalizing verbatim interpolated position with
  | nil =>
      cases old with
      | nil => simp [opensString] at opens
      | cons byte rest =>
          have moved : position <
              reach (.opening verbatim interpolated :: outer) (byte :: rest) position :=
            lt_reach rfl position
          simp only [List.nil_append, List.length_nil] at inside
          omega
  | cons byte text ih =>
      simp only [opensString, List.cons_append, Bool.or_eq_true,
        Bool.and_eq_true] at opens ⊢
      rcases opens with quote | ⟨sign, opens⟩
      · exact .inl quote
      · refine .inr ⟨sign, ?_⟩
        simp only [List.cons_append, reach, Enclosure.endsBefore, Enclosure.advance,
          Bool.false_eq_true, if_false, List.length_cons] at inside
        have shifted : position + (text.length + 1) = position + 1 + text.length := by
          omega
        rw [shifted] at inside
        rcases sign with atSign | dollar
        · rw [if_pos atSign] at inside
          exact ih _ _ _ opens inside
        · rw [if_pos dollar] at inside
          split at inside
          all_goals exact ih _ _ _ opens inside

/-- What a quote opens does not depend on what is behind a text, unless the literal goes
on there. -/
theorem openQuote_cut {old new : Text} (behind : Behind old new)
    (verbatim interpolated : Bool) (text : Text) :
    openQuote verbatim interpolated (text ++ new)
      = openQuote verbatim interpolated (text ++ old) ∨
      ∀ outer position, position + text.length <
        reach (openQuote verbatim interpolated (text ++ old) ++ outer)
          (text ++ old) position := by
  cases behind with
  | same shared decisive old new =>
      left
      obtain ⟨-, -, -, -, quote⟩ := Byte.isDecisive.spec decisive
      simp [openQuote, List.takeWhile_append, quote]
  | nothing =>
      by_cases inside : ((text ++ old).takeWhile (· == Byte.quote)).length ≤ text.length
      · left
        simp only [openQuote, takeWhile_cut (.nothing old) _ _ inside]
      by_cases short : ((text ++ old).takeWhile (· == Byte.quote)).length < 2
      · left
        have empty : text = [] := List.eq_nil_of_length_eq_zero (by omega)
        subst empty
        simp only [openQuote, if_pos short]
        simp
      · right
        intro outer position
        have present :=
          (List.takeWhile_sublist (l := text ++ old) (· == Byte.quote)).length_le
        simp only [openQuote, if_neg short, List.append_assoc]
        have passed := replicate_skip_le_reach _
          ([.raw (((text ++ old).takeWhile (· == Byte.quote)).length + 1) 0] ++ outer)
            _ position present
        omega

/-- The next byte is the same when the text behind is cut, or the look ahead failed
anyway, or the construct goes on behind the text. -/
theorem head_cut {old new : Text} (behind : Behind old new) (text : Text)
    (wanted : UInt8) (inner : Enclosure) (enclosures : List Enclosure)
    (stays : inner.endsBefore wanted = false) :
    ((text ++ new).head? == some wanted) = ((text ++ old).head? == some wanted) ∨
      ((text ++ old).head? == some wanted) = true
        ∧ ∀ outer position, position + text.length <
        reach (inner :: enclosures ++ outer) (text ++ old) position := by
  rcases behind.head? text with same | ⟨empty, nothing⟩
  · exact .inl (by rw [same])
  · subst empty nothing
    cases old with
    | nil => exact .inl rfl
    | cons byte rest =>
        by_cases found : byte = wanted
        · subst found
          exact .inr ⟨by simp, fun outer position => lt_reach stays position⟩
        · exact .inl (by simp [found])

/-- Whether a text opens a string does not depend on what is behind it, unless the
string goes on there. -/
theorem opensString_cut {old new : Text} (behind : Behind old new) (text : Text) :
    opensString (text ++ new) = opensString (text ++ old) ∨
      opensString (text ++ old) = true
        ∧ ∀ verbatim interpolated enclosures outer position,
        position + text.length <
          reach (.opening verbatim interpolated :: enclosures ++ outer)
            (text ++ old) position := by
  cases behind with
  | same shared decisive old new =>
      left
      rw [← List.append_assoc, ← List.append_assoc]
      exact opensString_same (text ++ shared) decisive old new
  | nothing =>
      rw [List.append_nil]
      by_cases opens : opensString text
      · exact .inl (by rw [opens, opensString_append opens])
      by_cases later : opensString (text ++ old)
      · refine .inr ⟨later, fun verbatim interpolated enclosures outer position => ?_⟩
        by_contra inside
        exact opens (opensString_of_reach_le text old verbatim interpolated
          _ position later (Nat.le_of_not_lt inside))
      · exact .inl (by rw [Bool.eq_false_iff.mpr opens, Bool.eq_false_iff.mpr later])

/-- Outside of strings and braces, what a byte in a hole opens does not depend on what
is behind a text, unless the construct goes on there. -/
theorem advance_hole_rest_cut {old new : Text} (behind : Behind old new) (depth : Nat)
    (byte : UInt8) (text : Text) :
    let opened (rest : Text) : List Enclosure :=
      if byte == Byte.apostrophe then [.character, .hole depth]
      else if byte == Byte.slash && rest.head? == some Byte.star then
        [.skip, .comment, .hole depth]
      else [.hole depth]
    opened (text ++ new) = opened (text ++ old) ∨
      ∀ outer position, position + text.length <
        reach (opened (text ++ old) ++ outer) (text ++ old) position := by
  dsimp only
  split
  · exact .inl rfl
  rcases head_cut behind text Byte.star .skip [.comment, .hole depth] rfl with
    same | ⟨found, beyond⟩
  · exact .inl (by rw [same])
  · cases byte == Byte.slash with
    | false => exact .inl rfl
    | true => rw [found]; exact .inr beyond

/-- What remains open of a hole after a byte does not depend on what is behind a text,
unless the construct goes on there. -/
theorem advance_hole_cut {old new : Text} (behind : Behind old new) (depth : Nat)
    (byte : UInt8) (text : Text) :
    (Enclosure.hole depth).advance byte (text ++ new) =
        (Enclosure.hole depth).advance byte (text ++ old) ∨
      ∀ outer position, position + text.length <
        reach ((Enclosure.hole depth).advance byte (text ++ old) ++ outer) (text ++ old)
          position := by
  simp only [Enclosure.advance]
  split
  · exact .inl rfl
  split
  · exact .inl rfl
  split
  · rcases openQuote_cut behind false false text with same | beyond
    · exact .inl (by rw [same])
    · refine .inr fun outer position => ?_
      rw [List.append_assoc]
      exact beyond _ position
  rcases opensString_cut behind text with same | ⟨opens, beyond⟩
  · rw [same]
    split
    · exact .inl rfl
    · exact advance_hole_rest_cut behind depth byte text
  · by_cases sign : byte == Byte.dollar || byte == Byte.atSign
    · rw [sign, opens]
      exact .inr (beyond _ _ [.hole depth])
    · rw [Bool.eq_false_iff.mpr sign]
      exact advance_hole_rest_cut behind depth byte text

/-- What remains open after a byte does not depend on what is behind a text, unless the
construct goes on there. -/
theorem advance_cut {old new : Text} (behind : Behind old new) (enclosure : Enclosure)
    (byte : UInt8) (text : Text) :
    enclosure.advance byte (text ++ new) = enclosure.advance byte (text ++ old) ∨
      ∀ outer position, position + text.length <
        reach (enclosure.advance byte (text ++ old) ++ outer)
          (text ++ old) position := by
  cases enclosure with
  | skip => exact .inl rfl
  | character => exact .inl rfl
  | opening verbatim interpolated =>
      simp only [Enclosure.advance]
      split
      · exact .inl rfl
      split
      · exact .inl rfl
      · exact openQuote_cut behind verbatim interpolated text
  | quoted verbatim interpolated =>
      simp only [Enclosure.advance]
      split
      · rcases head_cut behind text Byte.quote .skip [.quoted verbatim interpolated]
          rfl with same | ⟨found, beyond⟩
        · exact .inl (by rw [same])
        · cases verbatim with
          | false => exact .inl rfl
          | true => rw [found]; exact .inr beyond
      split
      · exact .inl rfl
      split
      · rcases head_cut behind text Byte.openBrace .skip [.quoted verbatim interpolated]
          rfl with same | ⟨found, beyond⟩
        · exact .inl (by rw [same])
        · rw [if_pos found]; exact .inr beyond
      · exact .inl rfl
  | raw quotes run =>
      simp only [Enclosure.advance]
      split
      · rcases head_cut behind text Byte.quote (.raw quotes (run + 1)) [] rfl with
          same | ⟨found, beyond⟩
        · exact .inl (by rw [same])
        · rw [found, Bool.or_true]; exact .inr beyond
      · exact .inl rfl
  | comment =>
      simp only [Enclosure.advance]
      rcases head_cut behind text Byte.slash .skip [] rfl with same | ⟨found, beyond⟩
      · exact .inl (by rw [same])
      · cases byte == Byte.star with
        | false => exact .inl rfl
        | true => rw [found]; exact .inr beyond
  | hole depth => exact advance_hole_cut behind depth byte text

theorem reach_nil (enclosures : List Enclosure) (position : Nat) :
    reach enclosures [] position = position := by
  cases enclosures with
  | nil => simp only [reach]
  | cons inner outer => rfl

theorem reach_of_head {enclosures : List Enclosure} {byte : UInt8} {rest : Text}
    {position : Nat} (stopped : reach enclosures (byte :: rest) position = position)
    (other : Text) :
    reach enclosures (byte :: other) position = position := by
  cases enclosures with
  | nil => simp only [reach]
  | cons inner outer =>
      simp only [reach] at stopped ⊢
      by_cases ends : inner.endsBefore byte
      · simp only [ends, if_true] at stopped ⊢
        split
        · rfl
        · rename_i enclosed
          rw [if_neg enclosed] at stopped
          have moved := le_reach outer rest (position + 1)
          omega
      · simp only [ends] at stopped
        have moved := le_reach (inner.advance byte rest ++ outer) rest (position + 1)
        simp only [Bool.false_eq_true, if_false] at stopped
        omega

/-- A construct that ends within a text ends at the same place whatever is behind the
text, as long as that starts in the same way. -/
theorem reach_cut {old new : Text} (behind : Behind old new)
    (enclosures : List Enclosure) (text : Text) (position : Nat)
    (inside : reach enclosures (text ++ old) position ≤ position + text.length) :
    reach enclosures (text ++ new) position
      = reach enclosures (text ++ old) position := by
  induction text generalizing enclosures position with
  | nil =>
      have stopped := Nat.le_antisymm inside (le_reach enclosures old position)
      simp only [List.nil_append, List.length_nil, Nat.add_zero] at stopped ⊢
      rw [stopped]
      cases behind with
      | nothing => exact reach_nil enclosures position
      | same shared decisive old new =>
          cases shared with
          | nil => exact reach_of_head stopped new
          | cons byte shared => exact reach_of_head stopped _
  | cons byte text ih =>
      cases enclosures with
      | nil => simp only [reach]
      | cons inner outer =>
          simp only [List.cons_append, List.length_cons, reach] at inside ⊢
          have shifted : position + (text.length + 1) = position + 1 + text.length := by
            omega
          rw [shifted] at inside
          by_cases ends : inner.endsBefore byte
          · simp only [ends, if_true] at inside ⊢
            split
            · rfl
            · rename_i enclosed
              rw [if_neg enclosed] at inside
              exact ih _ _ inside
          · simp only [ends] at inside ⊢
            rcases advance_cut behind inner byte text with same | beyond
            · rw [same]
              exact ih _ _ inside
            · exact absurd inside (Nat.not_le.mpr (beyond outer (position + 1)))

end Literal

namespace Utf8

theorem isContinuation.high {byte : UInt8} (continues : isContinuation byte = true) :
    0x80 ≤ byte := by
  simp only [isContinuation, Bool.and_eq_true, decide_eq_true_eq] at continues
  exact continues.1

/-- A character depends on the bytes that it covers only, and those are all continuation
bytes. -/
theorem read?_covered {lead : UInt8} {text : Text} {character : Char} {width : Nat}
    (found : read? lead text = some (character, width)) :
    (∀ other, read? lead (text.take width ++ other) = some (character, width)) ∧
      ∀ byte ∈ text.take width, 0x80 ≤ byte := by
  unfold read? at found ⊢
  by_cases ascii : lead < 0x80
  · simp only [ascii, if_true, Option.some.injEq, Prod.mk.injEq] at found ⊢
    obtain ⟨rfl, rfl⟩ := found
    simp
  simp only [ascii, if_false] at found ⊢
  by_cases stray : lead < 0xc2
  · simp only [stray, if_true] at found
    cases found
  simp only [stray, if_false] at found ⊢
  by_cases two : lead < 0xe0
  · simp only [two, if_true] at found ⊢
    rcases text with _ | ⟨second, rest⟩
    · cases found
    · simp only at found
      split at found
      · rename_i continues
        cases found
        simp [continues, isContinuation.high continues]
      · cases found
  simp only [two, if_false] at found ⊢
  by_cases three : lead < 0xf0
  · simp only [three, if_true] at found ⊢
    rcases text with _ | ⟨second, _ | ⟨third, rest⟩⟩
    · cases found
    · cases found
    · simp only at found
      split at found
      · rename_i valid
        cases found
        have continues := valid
        simp only [Bool.and_eq_true] at continues
        simp [valid, isContinuation.high continues.1.1.1,
          isContinuation.high continues.1.1.2]
      · cases found
  simp only [three, if_false] at found ⊢
  by_cases four : lead < 0xf5
  · simp only [four, if_true] at found ⊢
    rcases text with _ | ⟨second, _ | ⟨third, _ | ⟨fourth, rest⟩⟩⟩
    · cases found
    · cases found
    · cases found
    · simp only at found
      split at found
      · rename_i valid
        cases found
        have continues := valid
        simp only [Bool.and_eq_true] at continues
        simp [valid, isContinuation.high continues.1.1.1.1,
          isContinuation.high continues.1.1.1.2, isContinuation.high continues.1.1.2]
      · cases found
  · simp only [four, if_false] at found
    cases found

theorem read?_append {lead : UInt8} {text old : Text} {character : Char} {width : Nat}
    (found : read? lead (text ++ old) = some (character, width))
    (inside : width ≤ text.length) (new : Text) :
    read? lead (text ++ new) = some (character, width) := by
  have covered := (read?_covered found).1 (text.drop width ++ new)
  rwa [List.take_append_of_le_length inside, ← List.append_assoc,
    List.take_append_drop] at covered

theorem width_le_of_ascii {lead : UInt8} {text old : Text} {byte : UInt8}
    {character : Char} {width : Nat} (ascii : byte < 0x80)
    (found : read? lead (text ++ byte :: old) = some (character, width)) :
    width ≤ text.length := by
  by_contra beyond
  have covered : byte ∈ (text ++ byte :: old).take width := by
    rw [List.take_append, List.take_cons (by omega)]
    simp
  have high := (read?_covered found).2 byte covered
  exact UInt8.not_lt.mpr high ascii

/-- Reading a character in front of a decisive byte does not depend on what is behind
that byte. -/
theorem read?_same (lead : UInt8) (text : Text) {byte : UInt8}
    (decisive : Byte.isDecisive byte = true) (old new : Text) :
    read? lead (text ++ byte :: new) = read? lead (text ++ byte :: old) := by
  have ascii := (Byte.isDecisive.spec decisive).1
  cases before : read? lead (text ++ byte :: old) with
  | some result => exact read?_append before (width_le_of_ascii ascii before) _
  | none =>
      cases after : read? lead (text ++ byte :: new) with
      | none => rfl
      | some result =>
          have found := read?_append after (width_le_of_ascii ascii after) (byte :: old)
          rw [before] at found
          cases found

theorem read_same (lead : UInt8) (text : Text) {byte : UInt8}
    (decisive : Byte.isDecisive byte = true) (old new : Text) :
    read lead (text ++ byte :: new) = read lead (text ++ byte :: old) := by
  rw [read, read, read?_same lead text decisive old new]

/-- Reading a character does not depend on what is behind a text, unless the character
goes on there. -/
theorem read_cut {old new : Text} (behind : Behind old new) (lead : UInt8)
    (text : Text) :
    read lead (text ++ new) = read lead (text ++ old) ∨
      read lead (text ++ new) = (replacement, 0)
        ∧ text.length < (read lead (text ++ old)).2 := by
  cases behind with
  | same shared decisive old new =>
      left
      rw [← List.append_assoc, ← List.append_assoc]
      exact read_same lead (text ++ shared) decisive old new
  | nothing =>
      cases alone : read? lead (text ++ []) with
      | some result =>
          have inside : result.2 ≤ text.length := by
            have le := read_width_le lead (text ++ [])
            rwa [read, alone, List.append_nil] at le
          exact .inl (by rw [read, read, read?_append alone inside old, alone])
      | none =>
          cases longer : read? lead (text ++ old) with
          | none => exact .inl (by rw [read, read, alone, longer])
          | some result =>
              by_cases inside : result.2 ≤ text.length
              · have found := read?_append longer inside []
                rw [alone] at found
                cases found
              · refine .inr ⟨by rw [read, alone]; rfl, ?_⟩
                rw [read, longer]
                exact Nat.lt_of_not_le inside

end Utf8

namespace Token

variable {old new : Text}

theorem numberWidth_pos {text : Text} (digit : text.head?.any Byte.isDigit = true) :
    0 < numberWidth text := by
  cases text with
  | nil => cases digit
  | cons byte text =>
      simp only [List.head?_cons, Option.any_some] at digit
      simp [numberWidth, digit]

theorem numberWidth_cut (behind : Behind old new) (text : Text)
    (inside : numberWidth (text ++ old) ≤ text.length) :
    numberWidth (text ++ new) = numberWidth (text ++ old) := by
  induction text with
  | nil =>
      rw [List.nil_append, List.length_nil, Nat.le_zero] at inside
      rw [List.nil_append, List.nil_append, inside]
      cases behind with
      | nothing => rfl
      | same shared decisive old new =>
          cases shared with
          | nil =>
              have point := (Byte.isDecisive.spec decisive).2.1
              simp only [List.nil_append, numberWidth,
                beq_eq_false_iff_ne.mpr point] at inside ⊢
              split at inside
              · cases inside
              · rename_i other
                exact if_neg other
          | cons byte shared =>
              simp only [List.cons_append, numberWidth] at inside ⊢
              split at inside
              · cases inside
              · rename_i other
                rw [if_neg]
                cases shared <;> exact other
  | cons byte text ih =>
      simp only [List.cons_append, numberWidth] at inside ⊢
      rcases behind.head? text with same | ⟨rfl, rfl⟩
      · rw [same]
        split
        · rename_i continues
          rw [if_pos continues, List.length_cons, Nat.add_le_add_iff_right] at inside
          rw [ih inside]
        · rfl
      · -- The text ends with this byte, so a point would need the digit that is
        -- cut off.
        by_cases plain : Byte.isDigit byte || Byte.isAlpha byte
            || byte == Byte.underscore
        · simp only [plain, Bool.true_or, if_true, List.length_cons,
            List.length_nil] at inside ⊢
          have zero : numberWidth old = 0 := by simpa using inside
          rw [List.nil_append, List.nil_append, zero]
          rfl
        · simp only [plain, List.nil_append, Bool.false_or, List.head?_nil,
            Option.any_none, Bool.and_false] at inside ⊢
          by_cases point : byte == Byte.dot && old.head?.any Byte.isDigit
          · rw [if_pos point] at inside
            simp only [Bool.and_eq_true] at point
            have positive := numberWidth_pos point.2
            simp only [List.length_cons, List.length_nil] at inside
            omega
          · rw [if_neg point, if_neg Bool.false_ne_true]

theorem covered_le_identifierWidth (covered : Nat) (text : Text)
    (present : covered ≤ text.length) :
    covered ≤ identifierWidth covered text := by
  induction text generalizing covered with
  | nil => exact Nat.le_trans present (Nat.zero_le _)
  | cons byte text ih =>
      cases covered with
      | zero => exact Nat.zero_le _
      | succ covered =>
          simp only [identifierWidth]
          exact Nat.succ_le_succ (ih covered (by simpa using present))

/-- The character that stands for unreadable bytes is not part of a name. -/
theorem replacement_not_letter : Letter.continuesIdentifier Utf8.replacement = false ∧
    Letter.startsIdentifier Utf8.replacement = false := by
  -- Searching the ranges as a list is what makes the evaluation fast.
  simp only [Letter.continuesIdentifier, Letter.startsIdentifier, Letter.isLetter,
    Letter.isDigit, Letter.covers, ← Array.any_toList]
  decide +kernel

theorem identifierWidth_of_head {covered : Nat} {byte : UInt8} {rest other : Text}
    (same : Utf8.read byte other = Utf8.read byte rest)
    (empty : identifierWidth covered (byte :: rest) = 0) :
    identifierWidth covered (byte :: other) = 0 := by
  cases covered with
  | succ covered => simp [identifierWidth] at empty
  | zero =>
      simp only [identifierWidth] at empty ⊢
      split at empty
      · cases empty
      · rename_i ends
        rw [same, if_neg ends]

theorem identifierWidth_cut (behind : Behind old new) (covered : Nat) (text : Text)
    (inside : identifierWidth covered (text ++ old) ≤ text.length) :
    identifierWidth covered (text ++ new) = identifierWidth covered (text ++ old) := by
  induction text generalizing covered with
  | nil =>
      rw [List.nil_append, List.length_nil, Nat.le_zero] at inside
      rw [List.nil_append, List.nil_append, inside]
      cases behind with
      | nothing => rfl
      | same shared decisive old new =>
          cases shared with
          | nil =>
              have low := (Byte.isDecisive.spec decisive).1
              refine identifierWidth_of_head ?_ inside
              rw [Utf8.read_ascii low, Utf8.read_ascii low]
          | cons byte shared =>
              exact identifierWidth_of_head
                (Utf8.read_same byte shared decisive old new) inside
  | cons byte text ih =>
      cases covered with
      | succ covered =>
          simp only [List.cons_append, identifierWidth, List.length_cons,
            Nat.add_le_add_iff_right] at inside ⊢
          rw [ih covered inside]
      | zero =>
          simp only [List.cons_append, identifierWidth] at inside ⊢
          by_cases continues :
              Letter.continuesIdentifier (Utf8.read byte (text ++ old)).1
          · simp only [continues, if_true, List.length_cons,
              Nat.add_le_add_iff_right] at inside ⊢
            have fits := covered_le_identifierWidth
              _ _ (Utf8.read_width_le byte (text ++ old))
            rcases Utf8.read_cut behind byte text with same | ⟨-, beyond⟩
            · rw [same, if_pos continues, ih _ inside]
            · omega
          · simp only [continues]
            rcases Utf8.read_cut behind byte text with same | ⟨replaced, -⟩
            · rw [same, if_neg continues]
              rfl
            · rw [replaced, if_neg (Bool.eq_false_iff.mp replacement_not_letter.1)]
              rfl

theorem punctuationWidth_cut (behind : Behind old new) (byte : UInt8) (text : Text)
    (inside : punctuationWidth byte (text ++ old) ≤ text.length) :
    punctuationWidth byte (text ++ new) = punctuationWidth byte (text ++ old) := by
  have character : (Utf8.read byte (text ++ old)).2 ≤ text.length →
      (Utf8.read byte (text ++ new)).2 = (Utf8.read byte (text ++ old)).2 := by
    intro fits
    rcases Utf8.read_cut behind byte text with same | ⟨-, beyond⟩
    · rw [same]
    · omega
  simp only [punctuationWidth, List.take_one] at inside ⊢
  rcases behind.head? text with same | ⟨rfl, rfl⟩
  · rw [same]
    split
    · rfl
    · rename_i single
      rw [if_neg single] at inside
      exact character inside
  · have single : ¬ pairs.contains [byte] = true := by
      intro paired
      have size := length_of_mem_pairs (List.contains_iff_mem.mp paired)
      simp at size
    split at inside
    · simp at inside
    · rename_i other
      rw [if_neg other]
      exact (if_neg single).trans (character inside)

/-- The text behind a token that is neither line end nor blank nor comment nor literal
starts in the same way. -/
theorem Ordinary.cut {lineStart : Bool} {byte : UInt8} {text : Text}
    (ordinary : Ordinary lineStart byte (text ++ old)) (behind : Behind old new) :
    Ordinary lineStart byte (text ++ new) := by
  have next {wanted : UInt8} (found : (text ++ new).head? = some wanted) :
      (text ++ old).head? = some wanted := by
    rcases behind.head? text with same | ⟨rfl, rfl⟩
    · rw [← same, found]
    · cases found
  exact
    { ordinary with
      notLineComment := fun comment =>
        ordinary.notLineComment ⟨comment.1, next comment.2⟩
      notBlockComment :=
        fun comment => ordinary.notBlockComment ⟨comment.1, next comment.2⟩ }

theorem head_of_width_pos {text : Text} {wanted : UInt8} {width : Nat}
    (found : (text ++ old).head? = some wanted) (positive : 0 < width)
    (inside : width ≤ text.length) (new : Text) :
    (text ++ new).head? = some wanted := by
  cases text with
  | nil => simp only [List.length_nil] at inside; omega
  | cons byte text => exact found

/-- A token is still read when what is behind it is cut off, or replaced by a text that
starts in the same way. -/
theorem Reads.cut {lineStart : Bool} {byte : UInt8} {text : Text} {kind : TokenKind}
    {width : Nat} (reads : Reads lineStart byte (text ++ old) kind width)
    (inside : width ≤ text.length) (behind : Behind old new) :
    Reads lineStart byte (text ++ new) kind width := by
  have literal (enclosures : List Literal.Enclosure)
      (ends : Literal.width enclosures (text ++ old) ≤ text.length) :
      Literal.width enclosures (text ++ new) = Literal.width enclosures (text ++ old) :=
    Literal.reach_cut behind enclosures text 0 (by rwa [Nat.zero_add])
  cases reads with
  | lineFeed is => exact .lineFeed is
  | carriageReturn is =>
      have same : ((text ++ old).head? == some Byte.lineFeed)
          = ((text ++ new).head? == some Byte.lineFeed) := by
        rcases behind.head? text with same | ⟨rfl, rfl⟩
        · rw [same]
        · split at inside
          · cases inside
          · rename_i single
            exact Bool.eq_false_iff.mpr single
      rw [same]
      exact .carriageReturn is
  | space is =>
      rw [← takeWhile_cut behind _ text inside]
      exact .space is
  | directive is starts =>
      rw [lineWidth, ← takeWhile_cut behind _ text inside]
      exact .directive is starts
  | lineComment is next =>
      have positive : 0 < lineWidth (text ++ old) := by
        rcases List.head?_eq_some_iff.mp next with ⟨rest, parted⟩
        rw [parted]
        exact Nat.succ_pos _
      rw [lineWidth, ← takeWhile_cut behind _ text inside]
      exact .lineComment is (head_of_width_pos next positive inside new)
  | blockComment is next =>
      have positive : 0 < Literal.width [.skip, .comment] (text ++ old) := by
        rcases List.head?_eq_some_iff.mp next with ⟨rest, parted⟩
        rw [parted]
        exact Literal.lt_reach rfl 0
      rw [← literal _ inside]
      exact .blockComment is (head_of_width_pos next positive inside new)
  | quoted is =>
      rcases Literal.openQuote_cut behind false false text with same | beyond
      · rw [← literal _ inside, ← same]
        exact .quoted is
      · have goesOn := beyond [] 0
        rw [List.append_nil, Nat.zero_add] at goesOn
        exact absurd inside (Nat.not_le.mpr goesOn)
  | interpolated is opens =>
      have within := Literal.opensString_of_reach_le text old false true [] 0 opens
        (by rwa [Nat.zero_add])
      rw [← literal _ inside]
      exact .interpolated is (Literal.opensString_append within new)
  | dollar is plain =>
      rcases Literal.opensString_cut behind text with same | ⟨opens, -⟩
      · exact .dollar is (same.trans plain)
      · rw [plain] at opens
        cases opens
  | verbatim is opens =>
      have positive : 0 < Literal.width [.opening true false] (text ++ old) := by
        cases parted : text ++ old with
        | nil => simp [opensVerbatim, parted] at opens
        | cons sign rest => exact Literal.lt_reach rfl 0
      have within := Literal.opensString_of_reach_le text old true false [] 0 opens.2
        (by rwa [Nat.zero_add])
      have sign := opens.1.imp
        (fun found => head_of_width_pos found positive inside new)
        (fun found => head_of_width_pos found positive inside new)
      rw [← literal _ inside]
      exact .verbatim is ⟨sign, Literal.opensString_append within new⟩
  | character is =>
      rw [← literal _ inside]
      exact .character is
  | number is =>
      rw [← numberWidth_cut behind text inside]
      exact .number is
  | atSign is plain short =>
      refine .atSign is (fun opens => plain ?_) ?_
      · have same : Literal.opensString (text ++ old) = true := by
          rcases Literal.opensString_cut behind text with same | ⟨longer, -⟩
          · exact same.symm.trans opens.2
          · exact longer
        rcases behind.head? text with head | ⟨rfl, rfl⟩
        · exact ⟨head ▸ opens.1, same⟩
        · cases opens.2
      · rw [identifierWidth_cut behind 0 text (by omega), short]
  | verbatimName is long =>
      have same := identifierWidth_cut behind 0 text inside
      rw [← same] at long ⊢
      exact .verbatimName is long
  | name ordinary letter =>
      have covered := covered_le_identifierWidth
        _ _ (Utf8.read_width_le byte (text ++ old))
      have same : Utf8.read byte (text ++ new) = Utf8.read byte (text ++ old) := by
        rcases Utf8.read_cut behind byte text with same | ⟨-, beyond⟩
        · exact same
        · omega
      rw [← identifierWidth_cut behind _ text inside, ← same]
      exact .name (ordinary.cut behind) (by rwa [same])
  | punctuation ordinary other =>
      rw [← punctuationWidth_cut behind byte text inside]
      refine .punctuation (ordinary.cut behind) ?_
      rcases Utf8.read_cut behind byte text with same | ⟨replaced, -⟩
      · rwa [same]
      · rw [replaced]
        exact replacement_not_letter.2

end Token

end Lineup
