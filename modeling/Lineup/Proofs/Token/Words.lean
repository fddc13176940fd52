import Lineup.Proofs.Syntax.Gist
import Lineup.Proofs.Token.Sealed

/-!
# Words on a line

A word is a text that is read as the same tokens in front of every blank. Words with
blanks between them are read one by one, so a line of words is made of the significant
tokens of its words.
-/

namespace Lineup

/-- The blanks that a word can stand in front of. -/
def Byte.isSeparator (byte : UInt8) : Bool :=
  byte == Byte.space || byte == Byte.lineFeed

theorem Byte.isSeparator.decisive {byte : UInt8}
    (separates : Byte.isSeparator byte = true) :
    Byte.isDecisive byte = true := by
  rw [isSeparator, Bool.or_eq_true, beq_iff_eq, beq_iff_eq] at separates
  rcases separates with rfl | rfl
  · decide
  · decide

/-- An identifier does not go on past the byte. -/
structure Byte.EndsName (byte : UInt8) : Prop where
  ascii : byte < 0x80
  notSlash : byte ≠ Byte.slash
  notStar : byte ≠ Byte.star
  notLetter : Letter.continuesIdentifier (Char.ofNat byte.toNat) = false

theorem Byte.isSeparator.endsName {byte : UInt8}
    (separates : Byte.isSeparator byte = true) :
    Byte.EndsName byte := by
  rw [isSeparator, Bool.or_eq_true, beq_iff_eq, beq_iff_eq] at separates
  rcases separates with rfl | rfl
  · exact ⟨by decide, by decide, by decide, by decide +kernel⟩
  · exact ⟨by decide, by decide, by decide, by decide +kernel⟩

namespace Token

/-! ## Identifiers in front of other text -/

theorem identifierWidth_le_of_endsName {byte : UInt8} (ends : Byte.EndsName byte)
    (rest : Text) {covered : Nat} {text : Text} (present : covered ≤ text.length) :
    identifierWidth covered (text ++ byte :: rest) ≤ text.length := by
  induction text generalizing covered with
  | nil =>
      cases Nat.le_zero.mp present
      rw [List.nil_append, identifierWidth, Utf8.read_ascii ends.ascii]
      dsimp only
      rw [if_neg (Bool.eq_false_iff.mp ends.notLetter)]
      exact Nat.le_refl 0
  | cons first text ih =>
      cases covered with
      | succ covered =>
          rw [List.cons_append, identifierWidth]
          exact Nat.succ_le_succ (ih (Nat.le_of_succ_le_succ present))
      | zero =>
          have width : (Utf8.read first (text ++ byte :: rest)).2 ≤ text.length := by
            rw [Utf8.read]
            cases found : Utf8.read? first (text ++ byte :: rest) with
            | none => exact Nat.zero_le _
            | some result => exact Utf8.width_le_of_ascii ends.ascii found
          rw [List.cons_append, identifierWidth]
          dsimp only
          split
          · exact Nat.succ_le_succ (ih width)
          · exact Nat.zero_le _

/-- A text that is an identifier on its own is one in front of a byte that ends it. -/
theorem isRead_identifier {token : Token} (read : IsRead true token [])
    (identifier : token.kind = .identifier) {byte : UInt8} (ends : Byte.EndsName byte)
    (lineStart : Bool) (rest : Text) : IsRead lineStart token (byte :: rest) := by
  cases read with
  | @intro first more spelled reads =>
      rw [identifier] at reads
      refine .intro spelled ?_
      rw [identifier]
      -- What follows is cut off again, which leaves the identifier as it is.
      have cut : Behind (byte :: rest) [] := .nothing _
      generalize more.length = width at reads ⊢
      cases reads with
      | verbatimName is long =>
          have inside := identifierWidth_le_of_endsName ends rest
            (Nat.zero_le more.length)
          have same := identifierWidth_cut cut 0 more inside
          rw [same] at long ⊢
          exact .verbatimName is long
      | name ordinary letter =>
          have next (wanted : UInt8) (other : byte ≠ wanted)
              (found : (more ++ byte :: rest).head? = some wanted) :
              (more ++ []).head? = some wanted := by
            cases more with
            | nil => exact absurd (Option.some.inj found) other
            | cons second more => exact found
          have kept : Utf8.read first (more ++ [])
              = Utf8.read first (more ++ byte :: rest) := by
            rcases Utf8.read_cut cut first more with same | ⟨replaced, -⟩
            · exact same
            · rw [replaced, replacement_not_letter.2] at letter
              cases letter
          have width : (Utf8.read first (more ++ byte :: rest)).2 ≤ more.length := by
            rw [← kept]
            exact (Utf8.read_width_le first (more ++ [])).trans_eq
              (congrArg _ (List.append_nil more))
          have inside := identifierWidth_le_of_endsName ends rest width
          have same := identifierWidth_cut cut _ more inside
          rw [kept] at letter ⊢
          rw [same]
          exact .name
            { ordinary with
              notDirective := fun directive => ordinary.notDirective ⟨directive.1, rfl⟩
              notLineComment := fun comment =>
                ordinary.notLineComment ⟨comment.1, next _ ends.notSlash comment.2⟩
              notBlockComment := fun comment =>
                ordinary.notBlockComment ⟨comment.1, next _ ends.notStar comment.2⟩ }
            letter

/-! ## Words -/

/-- A text that is read as the same tokens in front of every blank. -/
structure Word where
  text : Text
  /-- The significant tokens of the word, without their places. -/
  tokens : List Token
  gist_lex : gist (lex text) = tokens
  reads : ∀ lineStart byte rest, Byte.isSeparator byte = true →
    Run lineStart (lex text) (byte :: rest)

/-- Whether a text is read in front of blanks as it is read on its own. -/
def isFixed (text : Text) : Bool :=
  match lex text with
  | [] => false
  | first :: rest =>
      !first.isTrivia && !first.is "#"
        && [Byte.space, Byte.lineFeed].all fun byte =>
          (lex (text ++ [byte])).take (rest.length + 1) == first :: rest

theorem Run.anyLineStart {lineStart : Bool} {token : Token} {tokens : List Token}
    {behind : Text} (run : Run lineStart (token :: tokens) behind)
    (starts : token.isTrivia = false) (plain : token.is "#" = false) (other : Bool) :
    Run other (token :: tokens) behind := by
  have stands := run.stands.anyLineStart starts plain other
  refine ⟨stands.1.isRead (isBlank_of_significant starts), ?_⟩
  have later := run.2
  rwa [startsLine_of_significant starts] at later ⊢

/-- A text that is read as it is in front of one blank of each sort is read so in front
of every text that starts with a blank. -/
theorem run_of_isFixed {text : Text} (fixed : isFixed text = true) (lineStart : Bool)
    (byte : UInt8) (rest : Text) (separates : Byte.isSeparator byte = true) :
    Run lineStart (lex text) (byte :: rest) := by
  rw [isFixed] at fixed
  cases tokens : lex text with
  | nil => trivial
  | cons first more =>
      rw [tokens] at fixed
      simp only [Bool.and_eq_true, Bool.not_eq_true', List.all_eq_true,
        beq_iff_eq] at fixed
      obtain ⟨⟨starts, plain⟩, front⟩ := fixed
      have listed : byte ∈ [Byte.space, Byte.lineFeed] := by
        simpa [Byte.isSeparator] using separates
      -- The tokens in front of the blank alone are a run there, and nothing past it
      -- matters.
      have whole := run_lexFrom true 0 (text ++ [byte])
      change Run true (lex (text ++ [byte])) [] at whole
      have text_eq : joined (first :: more) = text := by
        rw [← tokens, lex, joined_lexFrom]
      have all : joined (lex (text ++ [byte])) = text ++ [byte] :=
        joined_lexFrom true 0 _
      rw [← List.take_append_drop (more.length + 1) (lex (text ++ [byte])),
        front byte listed]
        at whole all
      rw [joined_append, text_eq, List.append_cancel_left_eq] at all
      have run := (run_append.mp whole).1
      rw [all] at run
      have behind : Behind [byte] (byte :: rest) :=
        .same [] (Byte.isSeparator.decisive separates) [] rest
      exact (run.cut behind).anyLineStart starts plain lineStart

namespace Word

/-- A text that is read in front of blanks as it is on its own. -/
def ofFixed (text : Text) (fixed : isFixed text = true) : Word where
  text := text
  tokens := gist (lex text)
  gist_lex := rfl
  reads := run_of_isFixed fixed

/-- A text that is an identifier on its own. -/
def ofIdentifier (text : Text) (lexed : lex text = [⟨.identifier, text, 0⟩]) :
    Word where
  text := text
  tokens := [⟨.identifier, text, 0⟩]
  gist_lex := by
    rw [lexed]
    rfl
  reads := by
    intro lineStart byte rest separates
    have run := run_lexFrom true 0 text
    change Run true (lex text) [] at run
    rw [lexed] at run ⊢
    exact ⟨isRead_identifier run.1 rfl (Byte.isSeparator.endsName separates) lineStart
      rest, trivial⟩

/-- The text of words with blanks between them. -/
def line (words : List Word) : Text :=
  Text.join [Byte.space] (words.map Word.text)

theorem contentFrom_word (word : Word) (lineStart : Bool) {byte : UInt8}
    (separates : Byte.isSeparator byte = true) (rest : Text) : ∃ starts,
      contentFrom lineStart (word.text ++ byte :: rest)
        = content (lex word.text) ++ contentFrom starts (byte :: rest) := by
  have lexed := lexFrom_run (word.reads lineStart byte rest separates) 0
  have same : content (place 0 (lex word.text)) = content (lex word.text) := by
    rw [content, map_face_place, content]
  have text : joined (lex word.text) = word.text := joined_lexFrom true 0 word.text
  rw [text] at lexed
  refine ⟨lineStartAfter lineStart (lex word.text), ?_⟩
  rw [contentFrom, lexed, content_append, same, content_lexFrom]

theorem contentFrom_line (words : List Word) (lineStart : Bool) (rest : Text) :
    contentFrom lineStart (line words ++ Byte.lineFeed :: rest)
      = words.flatMap (fun word => content (lex word.text))
        ++ contentFrom true rest := by
  induction words generalizing lineStart with
  | nil => exact contentFrom_lineFeed lineStart rest
  | cons word words ih =>
      cases words with
      | nil =>
          obtain ⟨starts, found⟩ :=
            @contentFrom_word word lineStart Byte.lineFeed rfl rest
          rw [contentFrom_lineFeed] at found
          simpa [line, Text.join] using found
      | cons next words =>
          obtain ⟨starts, found⟩ := @contentFrom_word word lineStart Byte.space rfl
            (line (next :: words) ++ Byte.lineFeed :: rest)
          have joined : line (word :: next :: words)
              = word.text ++ Byte.space :: line (next :: words) := by
            simp [line, Text.join]
          rw [contentFrom_space starts rfl, ih starts] at found
          rw [joined, List.append_assoc, List.cons_append, found, ← List.append_assoc]
          rfl

end Word

theorem gist_eq_content (tokens : List Token) :
    gist tokens = ((content tokens).filter fun face => !face.1.isTrivia).map
      fun face => ⟨face.1, face.2, 0⟩ := by
  have solid (token : Token) :
      (!token.kind.isTrivia && !token.kind.isBlank) = !token.isTrivia := by
    rw [isTrivia]
    cases token.kind <;> rfl
  rw [content, List.filter_filter, List.filter_map, List.map_map, gist, significant]
  exact congrArg (List.map bare) (List.filter_congr fun token _ => (solid token).symm)

namespace Word

/-- A line is made of the significant tokens of its words. -/
theorem gist_line (words : List Word) (lineStart : Bool) (offset : Nat) (rest : Text) :
    gist (lexFrom lineStart offset (line words ++ Byte.lineFeed :: rest))
      = words.flatMap Word.tokens ++ gist (lex rest) := by
  have each (word : Word) :
      ((content (lex word.text)).filter fun face => !face.1.isTrivia).map
      (fun face => (⟨face.1, face.2, 0⟩ : Token)) = word.tokens := by
    rw [← gist_eq_content, word.gist_lex]
  rw [gist_eq_content, content_lexFrom, contentFrom_line, List.filter_append,
    List.map_append, List.filter_flatMap, List.map_flatMap, contentFrom,
    ← gist_eq_content]
  exact congrArg (· ++ _) (List.flatMap_congr fun word _ => each word)

end Word

end Token

end Lineup
