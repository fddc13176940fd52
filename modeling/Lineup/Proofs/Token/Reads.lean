import Mathlib.Data.List.Basic
import Lineup.Token.Lexer

/-!
# What the first token of a text can be

The lexer decides on the first token by its first byte and a look at what follows. The
relation `Reads` lists the possible decisions, each with the conditions under which it
is taken, so that facts about tokens can be shown one kind of token at a time.
-/

namespace Lineup

namespace Token

/-- Neither the byte nor what follows it starts a line end, blanks, a preprocessor line,
a comment, a literal, a number or a verbatim identifier. -/
structure Ordinary (lineStart : Bool) (byte : UInt8) (rest : Text) : Prop where
  notLineFeed : byte ≠ Byte.lineFeed
  notCarriageReturn : byte ≠ Byte.carriageReturn
  notSpace : ¬ Byte.isInlineSpace byte
  notDirective : ¬ (byte = Byte.hash ∧ lineStart = true)
  notLineComment : ¬ (byte = Byte.slash ∧ rest.head? = some Byte.slash)
  notBlockComment : ¬ (byte = Byte.slash ∧ rest.head? = some Byte.star)
  notQuote : byte ≠ Byte.quote
  notDollar : byte ≠ Byte.dollar
  notAtSign : byte ≠ Byte.atSign
  notApostrophe : byte ≠ Byte.apostrophe
  notDigit : ¬ Byte.isDigit byte

/-- The signs in front of a verbatim string, given the text after the `@`. -/
def opensVerbatim (rest : Text) : Prop :=
  (rest.head? = some Byte.quote ∨ rest.head? = some Byte.dollar)
    ∧ Literal.opensString rest = true

/-- The kinds of first tokens, with the number of bytes after the first one. -/
inductive Reads (lineStart : Bool) (byte : UInt8) (rest : Text) : TokenKind → Nat →
    Prop where
  | lineFeed (is : byte = Byte.lineFeed) : Reads lineStart byte rest .newline 0
  | carriageReturn (is : byte = Byte.carriageReturn) :
      Reads lineStart byte rest .newline
        (if rest.head? == some Byte.lineFeed then 1 else 0)
  | space (is : Byte.isInlineSpace byte = true) :
      Reads lineStart byte rest .whitespace (rest.takeWhile Byte.isInlineSpace).length
  | directive (is : byte = Byte.hash) (starts : lineStart = true) :
      Reads lineStart byte rest .directive (lineWidth rest)
  | lineComment (is : byte = Byte.slash) (next : rest.head? = some Byte.slash) :
      Reads lineStart byte rest .lineComment (lineWidth rest)
  | blockComment (is : byte = Byte.slash) (next : rest.head? = some Byte.star) :
      Reads lineStart byte rest .blockComment (Literal.width [.skip, .comment] rest)
  | quoted (is : byte = Byte.quote) :
      Reads lineStart byte rest .string
        (Literal.width (Literal.openQuote false false rest) rest)
  | interpolated (is : byte = Byte.dollar) (opens : Literal.opensString rest = true) :
      Reads lineStart byte rest .string (Literal.width [.opening false true] rest)
  | dollar (is : byte = Byte.dollar) (plain : Literal.opensString rest = false) :
      Reads lineStart byte rest .punctuation 0
  | verbatim (is : byte = Byte.atSign) (opens : opensVerbatim rest) :
      Reads lineStart byte rest .string (Literal.width [.opening true false] rest)
  | character (is : byte = Byte.apostrophe) :
      Reads lineStart byte rest .character (Literal.width [.character] rest)
  | number (is : Byte.isDigit byte = true) :
        Reads lineStart byte rest .number (numberWidth rest)
  | atSign (is : byte = Byte.atSign) (plain : ¬ opensVerbatim rest)
      (short : identifierWidth 0 rest = 0) : Reads lineStart byte rest .punctuation 0
  | verbatimName (is : byte = Byte.atSign) (long : identifierWidth 0 rest ≠ 0) :
      Reads lineStart byte rest .identifier (identifierWidth 0 rest)
  | name (ordinary : Ordinary lineStart byte rest)
      (letter : Letter.startsIdentifier (Utf8.read byte rest).1 = true) :
      Reads lineStart byte rest .identifier
        (identifierWidth (Utf8.read byte rest).2 rest)
  | punctuation (ordinary : Ordinary lineStart byte rest)
      (other : Letter.startsIdentifier (Utf8.read byte rest).1 = false) :
      Reads lineStart byte rest .punctuation (punctuationWidth byte rest)

theorem identifierWidth_of_sign {rest : Text}
    (next : rest.head? = some Byte.quote ∨ rest.head? = some Byte.dollar) :
    identifierWidth 0 rest = 0 := by
  cases rest with
  | nil => rfl
  | cons byte rest =>
      have quote : Letter.continuesIdentifier (Utf8.read Byte.quote rest).1
          = false := by
        change Letter.continuesIdentifier '"' = false
        decide +kernel
      have dollar : Letter.continuesIdentifier (Utf8.read Byte.dollar rest).1
          = false := by
        change Letter.continuesIdentifier '$' = false
        decide +kernel
      simp only [List.head?_cons, Option.some.injEq] at next
      rcases next with rfl | rfl
      · simp [identifierWidth, quote]
      · simp [identifierWidth, dollar]

/-- The lexer takes one of the listed decisions. -/
theorem first_reads (lineStart : Bool) (byte : UInt8) (rest : Text) :
    Reads lineStart byte rest (first lineStart byte rest).1
      (first lineStart byte rest).2 := by
  unfold first
  by_cases lineFeed : byte == Byte.lineFeed
  · rw [if_pos lineFeed]; exact .lineFeed (eq_of_beq lineFeed)
  rw [if_neg lineFeed]
  by_cases carriageReturn : byte == Byte.carriageReturn
  · rw [if_pos carriageReturn]; exact .carriageReturn (eq_of_beq carriageReturn)
  rw [if_neg carriageReturn]
  by_cases space : Byte.isInlineSpace byte
  · rw [if_pos space]; exact .space space
  rw [if_neg space]
  by_cases directive : byte == Byte.hash && lineStart
  · rw [if_pos directive]
    simp only [Bool.and_eq_true, beq_iff_eq] at directive
    exact .directive directive.1 directive.2
  rw [if_neg directive]
  by_cases lineComment : byte == Byte.slash && rest.head? == some Byte.slash
  · rw [if_pos lineComment]
    simp only [Bool.and_eq_true, beq_iff_eq] at lineComment
    exact .lineComment lineComment.1 lineComment.2
  rw [if_neg lineComment]
  by_cases blockComment : byte == Byte.slash && rest.head? == some Byte.star
  · rw [if_pos blockComment]
    simp only [Bool.and_eq_true, beq_iff_eq] at blockComment
    exact .blockComment blockComment.1 blockComment.2
  rw [if_neg blockComment]
  by_cases quote : byte == Byte.quote
  · rw [if_pos quote]; exact .quoted (eq_of_beq quote)
  rw [if_neg quote]
  by_cases dollar : byte == Byte.dollar
  · rw [if_pos dollar]
    by_cases opens : Literal.opensString rest
    · rw [if_pos opens]; exact .interpolated (eq_of_beq dollar) opens
    · rw [if_neg opens]; exact .dollar (eq_of_beq dollar) (Bool.eq_false_iff.mpr opens)
  rw [if_neg dollar]
  by_cases sign : byte == Byte.atSign
      && (rest.head? == some Byte.quote || rest.head? == some Byte.dollar)
  · rw [if_pos sign]
    simp only [Bool.and_eq_true, Bool.or_eq_true, beq_iff_eq] at sign
    by_cases opens : Literal.opensString rest
    · rw [if_pos opens]; exact .verbatim sign.1 ⟨sign.2, opens⟩
    · rw [if_neg opens]
      exact .atSign sign.1 (fun verbatim => opens verbatim.2)
        (identifierWidth_of_sign sign.2)
  rw [if_neg sign]
  by_cases apostrophe : byte == Byte.apostrophe
  · rw [if_pos apostrophe]; exact .character (eq_of_beq apostrophe)
  rw [if_neg apostrophe]
  by_cases digit : Byte.isDigit byte
  · rw [if_pos digit]; exact .number digit
  rw [if_neg digit]
  simp only [Bool.and_eq_true,
    beq_iff_eq] at lineFeed carriageReturn directive lineComment
  simp only [Bool.and_eq_true, beq_iff_eq] at blockComment quote dollar apostrophe
  simp only [Bool.and_eq_true, Bool.or_eq_true, beq_iff_eq] at sign
  by_cases atSign : byte == Byte.atSign
  · rw [if_pos atSign]
    have is := eq_of_beq atSign
    cases width : identifierWidth 0 rest with
    | zero => exact .atSign is (fun verbatim => sign ⟨is, verbatim.1⟩) width
    | succ more =>
        have long : identifierWidth 0 rest ≠ 0 := by simp [width]
        have reads : Reads lineStart byte rest .identifier (identifierWidth 0 rest) :=
          .verbatimName is long
        rwa [width] at reads
  rw [if_neg atSign]
  have ordinary : Ordinary lineStart byte rest :=
    { notLineFeed := lineFeed
      notCarriageReturn := carriageReturn
      notSpace := space
      notDirective := directive
      notLineComment := lineComment
      notBlockComment := blockComment
      notQuote := quote
      notDollar := dollar
      notAtSign := by simpa using atSign
      notApostrophe := apostrophe
      notDigit := digit }
  by_cases letter : Letter.startsIdentifier (Utf8.read byte rest).1
  · simp only [letter, if_true]
    exact .name ordinary letter
  · simp only [letter]
    exact .punctuation ordinary (Bool.eq_false_iff.mpr letter)

/-- Past all special cases, the first token is an identifier or punctuation. -/
theorem Ordinary.first_eq {lineStart : Bool} {byte : UInt8} {rest : Text}
    (ordinary : Ordinary lineStart byte rest) :
    first lineStart byte rest =
      if Letter.startsIdentifier (Utf8.read byte rest).1 then
        (.identifier, identifierWidth (Utf8.read byte rest).2 rest)
      else (.punctuation, punctuationWidth byte rest) := by
  unfold first
  rw [if_neg (by simpa using ordinary.notLineFeed)]
  rw [if_neg (by simpa using ordinary.notCarriageReturn)]
  rw [if_neg ordinary.notSpace]
  rw [if_neg (by simpa using ordinary.notDirective)]
  rw [if_neg (by simpa using ordinary.notLineComment)]
  rw [if_neg (by simpa using ordinary.notBlockComment)]
  rw [if_neg (by simpa using ordinary.notQuote)]
  rw [if_neg (by simpa using ordinary.notDollar)]
  rw [if_neg (by simp [ordinary.notAtSign])]
  rw [if_neg (by simpa using ordinary.notApostrophe)]
  rw [if_neg ordinary.notDigit]
  rw [if_neg (by simpa using ordinary.notAtSign)]

theorem first_atSign {lineStart : Bool} {rest : Text} (plain : ¬ opensVerbatim rest) :
    first lineStart Byte.atSign rest =
      if identifierWidth 0 rest = 0 then (.punctuation, 0)
      else (.identifier, identifierWidth 0 rest) := by
  change
    (if _ then if _ then _ else _ else if _ then (TokenKind.character, _) else _) = _
  by_cases sign : Byte.atSign == Byte.atSign
      && (rest.head? == some Byte.quote || rest.head? == some Byte.dollar)
  · rw [if_pos sign]
    simp only [Bool.and_eq_true, Bool.or_eq_true, beq_iff_eq] at sign
    rw [if_neg fun opens => plain ⟨sign.2, opens⟩,
      if_pos (identifierWidth_of_sign sign.2)]
  · rw [if_neg sign]
    cases width : identifierWidth 0 rest with
    | zero => rfl
    | succ more => rfl

/-- The decision listed is the one the lexer takes. -/
theorem Reads.first_eq {lineStart : Bool} {byte : UInt8} {rest : Text}
    {kind : TokenKind} {width : Nat} (reads : Reads lineStart byte rest kind width) :
    first lineStart byte rest = (kind, width) := by
  cases reads with
  | lineFeed is => subst is; rfl
  | carriageReturn is => subst is; rfl
  | space is =>
      simp only [Byte.isInlineSpace, Bool.or_eq_true, beq_iff_eq] at is
      rcases is with ((rfl | rfl) | rfl) | rfl <;> rfl
  | directive is starts => subst is starts; rfl
  | lineComment is next =>
      subst is
      cases rest with
      | nil => cases next
      | cons byte rest => cases next; cases lineStart <;> rfl
  | blockComment is next =>
      subst is
      cases rest with
      | nil => cases next
      | cons byte rest => cases next; cases lineStart <;> rfl
  | quoted is => subst is; rfl
  | interpolated is opens =>
      subst is
      change (if _ then _ else _) = _
      exact if_pos opens
  | dollar is plain =>
      subst is
      change (if _ then _ else _) = _
      exact if_neg (Bool.eq_false_iff.mp plain)
  | verbatim is opens =>
      subst is
      have sign : (Byte.atSign == Byte.atSign
          && (rest.head? == some Byte.quote || rest.head? == some Byte.dollar))
            = true := by
        simpa using opens.1
      change (if _ then if _ then _ else _ else _) = _
      rw [if_pos sign, if_pos opens.2]
  | character is => subst is; rfl
  | number is =>
      have not (other : UInt8) (different : Byte.isDigit other = false) :
          byte ≠ other := by
        rintro rfl
        simp [different] at is
      have space : ¬ Byte.isInlineSpace byte := by
        simp [Byte.isInlineSpace, not Byte.space rfl, not Byte.tab rfl,
          not Byte.verticalTab rfl, not Byte.formFeed rfl]
      unfold first
      rw [if_neg (by simpa using not _ rfl), if_neg (by simpa using not _ rfl),
        if_neg space]
      rw [if_neg (by simp [not Byte.hash rfl])]
      rw [if_neg (by simp [not Byte.slash rfl]), if_neg (by simp [not Byte.slash rfl])]
      rw [if_neg (by simpa using not _ rfl), if_neg (by simpa using not _ rfl)]
      rw [if_neg (by simp [not Byte.atSign rfl]), if_neg (by simpa using not _ rfl),
        if_pos is]
  | atSign is plain short => subst is; rw [first_atSign plain, if_pos short]
  | verbatimName is long =>
      subst is
      rw [first_atSign fun opens => long (identifierWidth_of_sign opens.1), if_neg long]
  | name ordinary letter => rw [ordinary.first_eq, if_pos letter]
  | punctuation ordinary other => rw [ordinary.first_eq, if_neg (by simp [other])]

end Token

end Lineup
