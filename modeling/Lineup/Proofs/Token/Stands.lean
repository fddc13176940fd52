import Mathlib.Data.List.TakeWhile
import Lineup.Proofs.Token.Runs

/-!
# What a text says

The content of a text is the sequence of its tokens without blanks and line ends. Tokens
*stand* in front of a text when the lexer reads them there, up to the way in which
blanks are cut into tokens. Tokens whose content the lexer finds stand where they are,
so two texts that are put together are read as on their own exactly when the tokens of
both stand side by side.
-/

namespace Lineup

/-- Whether tokens of this kind are blanks or line ends. -/
def TokenKind.isBlank : TokenKind → Bool
  | whitespace | newline => true
  | _ => false

namespace Token

/-- What tokens say: the kinds and texts of those that are not blank. -/
def content (tokens : List Token) : List (TokenKind × Text) :=
  (tokens.map face).filter fun face => !face.1.isBlank

/-- What a text says, when it starts a line or does not. -/
def contentFrom (lineStart : Bool) (text : Text) : List (TokenKind × Text) :=
  content (lexFrom lineStart 0 text)

@[simp] theorem content_nil : content [] = [] := rfl

@[simp] theorem content_append (tokens others : List Token) :
    content (tokens ++ others) = content tokens ++ content others := by
  simp [content]

theorem content_cons (token : Token) (tokens : List Token) :
    content (token :: tokens) = content [token] ++ content tokens :=
  content_append [token] tokens

theorem content_of_blank {token : Token} (blank : token.kind.isBlank = true) :
    content [token] = [] := by
  simp [content, face, blank]

theorem content_of_not_blank {token : Token} (solid : token.kind.isBlank = false) :
    content [token] = [token.face] := by
  simp [content, face, solid]

theorem content_lexFrom (lineStart : Bool) (offset : Nat) (text : Text) :
    content (lexFrom lineStart offset text) = contentFrom lineStart text := by
  rw [contentFrom, content, content, map_face_lexFrom lineStart offset 0]

@[simp] theorem contentFrom_nil (lineStart : Bool) : contentFrom lineStart [] = [] := by
  simp [contentFrom]

theorem contentFrom_cons {lineStart : Bool} {byte : UInt8} {rest : Text}
    {kind : TokenKind} {width : Nat} (reads : Reads lineStart byte rest kind width) :
    contentFrom lineStart (byte :: rest) =
      content [{ kind, text := byte :: rest.take width, offset := 0 }]
        ++ contentFrom (startsLine lineStart kind) (rest.drop width) := by
  rw [contentFrom, lexFrom_cons reads, content_cons, content_lexFrom]

theorem contentFrom_dropWhile (lineStart : Bool) (text : Text) :
    contentFrom lineStart (text.dropWhile Byte.isInlineSpace)
      = contentFrom lineStart text := by
  cases text with
  | nil => rfl
  | cons byte rest =>
      by_cases space : Byte.isInlineSpace byte = true
      · have dropped := @List.drop_left _ (rest.takeWhile Byte.isInlineSpace)
          (rest.dropWhile Byte.isInlineSpace)
        rw [List.takeWhile_append_dropWhile] at dropped
        rw [contentFrom_cons (.space space), content_of_blank rfl, List.nil_append,
          dropped, List.dropWhile_cons_of_pos space]
        rfl
      · rw [List.dropWhile_cons_of_neg space]

theorem contentFrom_space (lineStart : Bool) {byte : UInt8}
    (space : Byte.isInlineSpace byte = true) (rest : Text) :
    contentFrom lineStart (byte :: rest) = contentFrom lineStart rest := by
  rw [← contentFrom_dropWhile lineStart (byte :: rest),
    List.dropWhile_cons_of_pos space, contentFrom_dropWhile]

theorem contentFrom_spaces (lineStart : Bool) {text : Text}
    (spaces : ∀ byte ∈ text, Byte.isInlineSpace byte = true) (rest : Text) :
    contentFrom lineStart (text ++ rest) = contentFrom lineStart rest := by
  induction text with
  | nil => rfl
  | cons byte text ih =>
      rw [List.cons_append, contentFrom_space lineStart (spaces byte (by simp)),
        ih fun each member =>
        spaces each (List.mem_cons_of_mem _ member)]

theorem contentFrom_lineFeed (lineStart : Bool) (rest : Text) :
    contentFrom lineStart (Byte.lineFeed :: rest) = contentFrom true rest := by
  rw [contentFrom_cons (.lineFeed rfl), content_of_blank rfl]
  rfl

/-- A line feed behind a carriage return belongs to the line end, but it may as well be
a line end of its own. -/
theorem contentFrom_carriageReturn (lineStart : Bool) (rest : Text) :
    contentFrom lineStart (Byte.carriageReturn :: rest) = contentFrom true rest := by
  rw [contentFrom_cons (.carriageReturn rfl), content_of_blank rfl]
  cases rest with
  | nil => rfl
  | cons byte rest =>
      by_cases next : byte = Byte.lineFeed
      · subst next
        rw [contentFrom_lineFeed]
        rfl
      · rw [if_neg (by simpa using next)]
        rfl

/-- The texts that a line end can have. -/
def isLineEndText (text : Text) : Bool :=
  text == [Byte.lineFeed] || text == [Byte.carriageReturn]
    || text == [Byte.carriageReturn, Byte.lineFeed]

theorem contentFrom_lineEnd (lineStart : Bool) {text : Text}
    (ends : isLineEndText text = true) (rest : Text) :
    contentFrom lineStart (text ++ rest) = contentFrom true rest := by
  simp only [isLineEndText, Bool.or_eq_true, beq_iff_eq] at ends
  rcases ends with (rfl | rfl) | rfl
  · exact contentFrom_lineFeed lineStart rest
  · exact contentFrom_carriageReturn lineStart rest
  · rw [List.cons_append, contentFrom_carriageReturn]
    exact contentFrom_lineFeed true rest

/-- A token that the lexer reads in front of `behind`, unless it is blank: blanks may be
cut into tokens in another way. -/
inductive Holds (lineStart : Bool) (token : Token) (behind : Text) : Prop where
  | space (is : token.kind = .whitespace)
        (spaces : ∀ byte ∈ token.text, Byte.isInlineSpace byte = true)
  | newline (is : token.kind = .newline) (ends : isLineEndText token.text = true)
  | read (solid : token.kind.isBlank = false) (read : IsRead lineStart token behind)

/-- The tokens are what the lexer reads where the text `behind` follows them, up to
blanks. -/
def Stands (lineStart : Bool) : List Token → Text → Prop
  | [], _ => True
  | token :: rest, behind =>
      Holds lineStart token (joined rest ++ behind)
        ∧ Stands (startsLine lineStart token.kind) rest behind

theorem stands_append {lineStart : Bool} {tokens others : List Token} {behind : Text} :
    Stands lineStart (tokens ++ others) behind ↔
      Stands lineStart tokens (joined others ++ behind)
        ∧ Stands (lineStartAfter lineStart tokens) others behind := by
  induction tokens generalizing lineStart with
  | nil => simp [Stands]
  | cons token rest ih => simp [Stands, ih, and_assoc]

theorem IsRead.holds {lineStart : Bool} {token : Token} {behind : Text}
    (read : IsRead lineStart token behind) : Holds lineStart token behind := by
  cases solid : token.kind.isBlank with
  | false => exact .read solid read
  | true =>
      cases is : token.kind with
      | newline =>
          refine .newline is ?_
          rcases read.newline is with text | text | ⟨text, -⟩ <;> rw [text] <;> rfl
      | whitespace =>
          refine .space is fun byte member => ?_
          cases read with
          | @intro first more spelled reads =>
              rw [is] at reads
              generalize size : more.length = width at reads
              cases reads with
              | space space =>
                  have all := List.prefix_iff_eq_take.mp
                    (List.takeWhile_prefix Byte.isInlineSpace (l := more ++ behind))
                  rw [← size, List.take_left] at all
                  rw [spelled, ← all] at member
                  rcases List.mem_cons.mp member with rfl | later
                  · exact space
                  · exact List.mem_takeWhile_imp later
      | _ => simp [is, TokenKind.isBlank] at solid

/-- A run stands where it is. -/
theorem Run.stands {lineStart : Bool} {tokens : List Token} {behind : Text}
    (run : Run lineStart tokens behind) : Stands lineStart tokens behind := by
  induction tokens generalizing lineStart with
  | nil => trivial
  | cons token rest ih => exact ⟨run.1.holds, ih run.2⟩

theorem Stands.cut {lineStart : Bool} {tokens : List Token} {old new : Text}
    (stands : Stands lineStart tokens old) (behind : Behind old new) :
    Stands lineStart tokens new := by
  induction tokens generalizing lineStart with
  | nil => trivial
  | cons token rest ih =>
      refine ⟨?_, ih stands.2⟩
      cases stands.1 with
      | space is spaces => exact .space is spaces
      | newline is ends => exact .newline is ends
      | read solid read => exact .read solid (read.cut behind)

/-- Tokens that stand in front of a text are what the lexer finds there. -/
theorem Stands.contentFrom {lineStart : Bool} {tokens : List Token} {behind : Text}
    (stands : Stands lineStart tokens behind) :
    contentFrom lineStart (joined tokens ++ behind)
      = content tokens ++ contentFrom (lineStartAfter lineStart tokens) behind := by
  induction tokens generalizing lineStart with
  | nil => rfl
  | cons token rest ih =>
      have later := ih stands.2
      rw [content_cons, joined_cons, List.append_assoc, lineStartAfter_cons,
        List.append_assoc, ← later]
      cases stands.1 with
      | space is spaces =>
          rw [content_of_blank (by rw [is]; rfl), contentFrom_spaces _ spaces, is]
          rfl
      | newline is ends =>
          rw [content_of_blank (by rw [is]; rfl), contentFrom_lineEnd _ ends, is]
          rfl
      | read solid read =>
          cases read with
          | @intro byte more spelled reads =>
              have same : content
                  [{ kind := token.kind, text := byte :: more, offset := 0 }]
                  = content [token] := by
                simp [content, face, spelled]
              rw [spelled, List.cons_append, contentFrom_cons reads, List.take_left,
                List.drop_left, same]

/-- A token that can be told from the tokens around it: blanks are made of blanks, and
every other token starts with something else. -/
inductive Formed (token : Token) : Prop where
  | space (is : token.kind = .whitespace)
        (spaces : ∀ byte ∈ token.text, Byte.isInlineSpace byte = true)
  | newline (is : token.kind = .newline) (ends : isLineEndText token.text = true)
  | solid {byte : UInt8} {more : Text} (solid : token.kind.isBlank = false)
      (spelled : token.text = byte :: more) (notLineEnd : Byte.isLineEnd byte = false)
      (notSpace : Byte.isInlineSpace byte = false)

/-- What a token is starts with its first byte. -/
theorem Reads.isBlank_eq {lineStart : Bool} {byte : UInt8} {rest : Text}
    {kind : TokenKind} {width : Nat} (reads : Reads lineStart byte rest kind width) :
    kind.isBlank = (Byte.isLineEnd byte || Byte.isInlineSpace byte) := by
  by_cases lineFeed : byte = Byte.lineFeed
  · have same := reads.first_eq.symm.trans (Reads.lineFeed lineFeed).first_eq
    rw [(Prod.mk.inj same).1, lineFeed]
    rfl
  by_cases carriageReturn : byte = Byte.carriageReturn
  · have same := reads.first_eq.symm.trans
      (Reads.carriageReturn carriageReturn).first_eq
    rw [(Prod.mk.inj same).1, carriageReturn]
    rfl
  have line : Byte.isLineEnd byte = false := by
    simp [Byte.isLineEnd, lineFeed, carriageReturn]
  by_cases space : Byte.isInlineSpace byte = true
  · have same := reads.first_eq.symm.trans (Reads.space space).first_eq
    rw [(Prod.mk.inj same).1, space, line]
    rfl
  · rw [line, Bool.eq_false_iff.mpr space]
    cases reads with
    | lineFeed is => exact absurd is lineFeed
    | carriageReturn is => exact absurd is carriageReturn
    | space is => exact absurd is space
    | _ => rfl

theorem Holds.formed {lineStart : Bool} {token : Token} {behind : Text}
    (holds : Holds lineStart token behind) : Formed token := by
  cases holds with
  | space is spaces => exact .space is spaces
  | newline is ends => exact .newline is ends
  | read solid read =>
      cases read with
      | intro spelled reads =>
          have blank := reads.isBlank_eq
          rw [solid] at blank
          obtain ⟨line, space⟩ := Bool.or_eq_false_iff.mp blank.symm
          exact .solid solid spelled line space

theorem Stands.formed {lineStart : Bool} {tokens : List Token} {behind : Text}
    (stands : Stands lineStart tokens behind) : ∀ token ∈ tokens, Formed token := by
  induction tokens generalizing lineStart with
  | nil => simp
  | cons token rest ih =>
      intro each member
      rcases List.mem_cons.mp member with rfl | later
      · exact stands.1.formed
      · exact ih stands.2 each later

/-- Tokens whose content the lexer finds stand where they are. -/
theorem Stands.of_contentFrom {lineStart : Bool} {tokens : List Token}
    (formed : ∀ token ∈ tokens, Formed token)
    (said : Token.contentFrom lineStart (joined tokens) = content tokens) :
    Stands lineStart tokens [] := by
  induction tokens generalizing lineStart with
  | nil => trivial
  | cons token rest ih =>
      have later {starts : Bool}
          (said : Token.contentFrom starts (joined rest) = content rest) :=
        ih (fun each member => formed each (List.mem_cons_of_mem _ member)) said
      rw [joined_cons, content_cons] at said
      simp only [Stands, List.append_nil]
      cases formed token (by simp) with
      | space is spaces =>
          rw [content_of_blank (by rw [is]; rfl), contentFrom_spaces _ spaces] at said
          refine ⟨.space is spaces, later ?_⟩
          rw [is]
          exact said
      | newline is ends =>
          rw [content_of_blank (by rw [is]; rfl), contentFrom_lineEnd _ ends] at said
          refine ⟨.newline is ends, later ?_⟩
          rw [is]
          exact said
      | @solid byte more solid spelled notLineEnd notSpace =>
          obtain ⟨kind, width, reads⟩ : ∃ kind width,
              Reads lineStart byte (more ++ joined rest) kind width :=
                ⟨_, _, first_reads _ _ _⟩
          have blank := reads.isBlank_eq
          rw [notLineEnd, notSpace] at blank
          rw [spelled, List.cons_append, contentFrom_cons reads,
            content_of_not_blank blank, content_of_not_blank solid] at said
          simp only [List.cons_append, List.nil_append, List.cons.injEq, face,
            Prod.mk.injEq, spelled, true_and] at said
          obtain ⟨⟨rfl, text⟩, said⟩ := said
          obtain rfl : width = more.length := by
            have size := congrArg List.length text
            rwa [List.length_take, Nat.min_eq_left reads.width_le] at size
          rw [List.drop_left] at said
          exact ⟨.read solid (.intro spelled reads), later said⟩

/-- Whether the two texts, put together, are read as on their own. -/
def areSeparate (text behind : Text) : Bool :=
  content (lex (text ++ behind)) == content (lex text) ++ content (lex behind)

/-- The texts of tokens that stand are separate exactly when the tokens stand side by
side. -/
theorem areSeparate_iff {tokens others : List Token} (first : Stands true tokens [])
    (second : Stands true others []) :
    areSeparate (joined tokens) (joined others) = true
      ↔ Stands true (tokens ++ others) [] := by
  have one := first.contentFrom
  have two := second.contentFrom
  simp only [contentFrom_nil, List.append_nil] at one two
  simp only [areSeparate, beq_iff_eq, lex, content_lexFrom, one, two, ← joined_append,
    ← content_append]
  constructor
  · intro said
    refine .of_contentFrom (fun token member => ?_) said
    rcases List.mem_append.mp member with member | member
    · exact first.formed token member
    · exact second.formed token member
  · intro stands
    have said := stands.contentFrom
    simpa only [contentFrom_nil, List.append_nil] using said

end Token

end Lineup
