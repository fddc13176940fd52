import Lineup.Proofs.Syntax.Gist
import Lineup.Proofs.Token.Sealed

/-!
# Texts that end with a line

Whether a text is read up to the line feed behind it depends on the token over that line
feed: a literal or a comment that is still open takes it in. Where the line feed is a
line end of its own, the text is read in the same way in front of everything, and texts
can be put behind each other.
-/

namespace Lineup

namespace Token

/-- The tokens are read from the text up to its end, whatever follows, and a line ends
there. -/
structure Ended (text : Text) (tokens : List Token) : Prop where
  spelled : joined tokens = text
  reads (behind : Text) : Run true tokens behind
  starts : lineStartAfter true tokens = true

namespace Ended

/-- Texts that end with a line can be put behind each other. -/
theorem append {text other : Text} {tokens others : List Token}
    (first : Ended text tokens) (second : Ended other others) :
    Ended (text ++ other) (tokens ++ others) where
  spelled := by rw [joined_append, first.spelled, second.spelled]
  reads behind := run_append.mpr
    ⟨first.reads _, first.starts.symm ▸ second.reads behind⟩
  starts := by rw [lineStartAfter_append, first.starts, second.starts]

theorem lineFeed : Ended [Byte.lineFeed] [⟨.newline, [Byte.lineFeed], 0⟩] where
  spelled := rfl
  reads _ := ⟨.intro rfl (.lineFeed rfl), trivial⟩
  starts := rfl

/-- The lexer starts anew behind a text that ends with a line. -/
theorem lexFrom {text : Text} {tokens : List Token} (ended : Ended text tokens)
    (offset : Nat) (behind : Text) : Token.lexFrom true offset (text ++ behind)
      = place offset tokens ++ Token.lexFrom true (offset + text.length) behind := by
  rw [← ended.spelled, lexFrom_run (ended.reads behind), ended.starts]

end Ended

theorem gist_congr {tokens others : List Token}
    (same : tokens.map face = others.map face) :
    gist tokens = gist others := by
  have spelled (tokens : List Token) : gist tokens
      = ((tokens.map face).filter fun face => !face.1.isTrivia).map fun face =>
        ⟨face.1, face.2, 0⟩ := by
    simp [gist, significant, List.filter_map, face, bare, isTrivia, Function.comp_def]
  rw [spelled, spelled, same]

@[simp] theorem gist_place (offset : Nat) (tokens : List Token) :
    gist (place offset tokens) = gist tokens :=
  gist_congr (map_face_place offset tokens)

theorem exists_token_over {tokens : List Token} {text rest : Text} {byte : UInt8}
    (all : joined tokens = text ++ byte :: rest) : ∃ before token after inner more,
      tokens = before ++ token :: after ∧ text = joined before ++ inner
        ∧ token.text = inner ++ byte :: more ∧ rest = more ++ joined after := by
  induction tokens generalizing text with
  | nil => simp at all
  | cons token tokens ih =>
      rw [joined_cons] at all
      have later (left : Text) (parted : text = token.text ++ left)
          (behind : joined tokens = left ++ byte :: rest) :
            ∃ before found after inner more,
          token :: tokens = before ++ found :: after ∧ text = joined before ++ inner
            ∧ found.text = inner ++ byte :: more ∧ rest = more ++ joined after := by
        obtain ⟨before, found, after, inner, more, rfl, rfl, covers, rfl⟩ := ih behind
        exact ⟨token :: before, found, after, inner, more, rfl,
          by simp [parted], covers, rfl⟩
      rcases List.append_eq_append_iff.mp
        all with ⟨left, parted, behind⟩ | ⟨left, parted, behind⟩
      · exact later left parted behind
      · cases left with
        | nil =>
            exact later [] (by simpa using parted.symm) (by simpa using behind.symm)
        | cons first left =>
            obtain ⟨rfl, rfl⟩ := List.cons.inj behind
            exact ⟨[], token, tokens, text, left, rfl, rfl, parted, rfl⟩

/-- The tokens in front of the one over a byte, and those of what that token covers in
front of the byte, are the tokens of the text up to the byte. -/
theorem gist_lex_append {before : List Token} {inner old : Text}
    (run : Run true before (inner ++ old)) :
    ∃ rest, Run (lineStartAfter true before) rest []
      ∧ joined rest = inner
      ∧ gist (lex (joined before ++ inner)) = gist before ++ gist rest := by
  have cut := run.cut_append (.nothing old)
  rw [List.append_nil] at cut
  refine ⟨Token.lexFrom (lineStartAfter true before) (0 + (joined before).length) inner,
    run_lexFrom _ _ _, joined_lexFrom _ _ _, ?_⟩
  rw [lex, lexFrom_run cut, gist_append, gist_place]

theorem length_le_of_mem_gist {tokens : List Token} {token : Token}
    (member : token ∈ gist tokens) :
    token.text.length ≤ (joined tokens).length := by
  obtain ⟨found, significant, rfl⟩ := List.mem_map.mp member
  obtain ⟨front, back, rfl⟩ := List.append_of_mem (List.mem_of_mem_filter significant)
  simp only [bare, joined_append, joined_cons, List.length_append]
  omega

theorem Run.gist_eq_nil {lineStart : Bool} {tokens : List Token} {behind : Text}
    (run : Run lineStart tokens behind)
    (ends : ∀ byte ∈ joined tokens, Byte.isLineEnd byte = true) :
    gist tokens = [] := by
  apply Token.gist_eq_nil
  induction tokens generalizing lineStart with
  | nil => simp
  | cons token tokens ih =>
      obtain ⟨read, later⟩ := run
      rw [joined_cons, List.forall_mem_append] at ends
      refine List.forall_mem_cons.mpr ⟨?_, ih later ends.2⟩
      cases read with
      | @intro byte more spelled reads =>
          have line : Byte.isLineEnd byte = true := ends.1 byte (by simp [spelled])
          have blank := reads.isBlank_eq
          rw [line, Bool.true_or] at blank
          by_contra solid
          rw [isBlank_of_significant (Bool.eq_false_iff.mpr solid)] at blank
          cases blank

/-- The token over the line feed behind a text is a line end. Otherwise it would be an
open literal, which cannot be one of the tokens of the text or the word behind them, or
an open comment, which leaves no room for the word. -/
theorem IsRead.newline_of_over {lineStart : Bool} {token word : Token}
    {inner rest : Text} {covered after more : List Token} {starts : Bool}
    (read : IsRead lineStart token (joined after)) (later : Run starts after [])
    (covers : token.text = inner ++ Byte.lineFeed :: rest)
    (text : joined covered = inner)
    (significant : gist (token :: after) = gist covered ++ word :: more)
    (plain : Byte.lineFeed ∉ word.text) (bare : Byte.slash ∉ rest) :
    token.kind = .newline := by
  have fed : Byte.lineFeed ∈ token.text := by simp [covers]
  have inline (kind : token.kind = .whitespace ∨ token.kind = .lineComment
      ∨ token.kind = .directive) :
      token.kind = .newline := by
    have line := read.inline kind _ fed
    cases line
  cases solid : token.isTrivia with
  | false =>
      exfalso
      rw [gist_cons solid] at significant
      cases ahead : gist covered with
      | nil =>
          rw [ahead] at significant
          rw [← (List.cons.inj significant).1] at plain
          exact plain fed
      | cons found others =>
          rw [ahead] at significant
          have member : token.bare ∈ gist covered := by
            rw [ahead, (List.cons.inj significant).1]
            exact List.mem_cons_self
          have short : token.text.length ≤ (joined covered).length :=
            @length_le_of_mem_gist covered token.bare member
          rw [text, covers, List.length_append, List.length_cons] at short
          omega
  | true =>
      cases kind : token.kind with
      | newline => rfl
      | whitespace => exact kind ▸ inline (.inl kind)
      | lineComment => exact kind ▸ inline (.inr (.inl kind))
      | directive => exact kind ▸ inline (.inr (.inr kind))
      | blockComment =>
          exfalso
          have present : joined after ≠ [] := by
            intro empty
            rw [later.eq_nil empty, gist_eq_nil (by simpa using solid)] at significant
            simp at significant
          have last := read.getLast?_blockComment kind present
          rw [covers, List.getLast?_append_of_ne_nil _ (List.cons_ne_nil _ _)] at last
          rcases List.mem_cons.mp (List.mem_of_getLast? last) with same | member
          · cases same
          · exact bare member
      | _ => simp [isTrivia, kind, TokenKind.isTrivia] at solid

theorem IsRead.newline_ends {lineStart : Bool} {token : Token}
    {behind inner rest : Text} (read : IsRead lineStart token behind)
    (is : token.kind = .newline)
    (covers : token.text = inner ++ Byte.lineFeed :: rest) :
    rest = [] ∧ ∀ byte ∈ inner, Byte.isLineEnd byte = true := by
  rcases read.newline is with line | line | ⟨line, -⟩
  · rw [line, eq_comm, List.append_eq_singleton_iff] at covers
    rcases covers with ⟨rfl, same⟩ | ⟨-, empty⟩
    · exact ⟨(List.cons.inj same).2, List.forall_mem_nil _⟩
    · cases empty
  · rw [line] at covers
    cases inner with
    | nil => cases covers
    | cons first inner =>
        rw [List.cons_append, List.cons.injEq] at covers
        obtain ⟨rfl, same⟩ := covers
        rw [eq_comm, List.append_eq_singleton_iff] at same
        rcases same with ⟨rfl, same⟩ | ⟨-, empty⟩
        · exact ⟨(List.cons.inj same).2, List.forall_mem_singleton.mpr rfl⟩
        · cases empty
  · rw [line, eq_comm, List.append_eq_singleton_iff] at covers
    rcases covers with ⟨-, same⟩ | ⟨-, empty⟩
    · cases same
    · cases empty

/-- A line feed behind a text ends the line when the significant tokens of the text
stand in front of it, another one follows that is not spread over lines, and no comment
is closed behind it. -/
theorem exists_ended {source follow : Text} {own others more : List Token}
    {word : Token} {offset : Nat}
    (all : Token.lexFrom true offset (source ++ Byte.lineFeed :: follow)
      = own ++ others)
    (same : gist own = gist (lex source)) (next : gist others = word :: more)
    (plain : Byte.lineFeed ∉ word.text) (bare : Byte.slash ∉ follow) :
    ∃ tokens, Ended (source ++ [Byte.lineFeed]) tokens
      ∧ gist tokens = gist (lex source) := by
  have run := run_lexFrom true offset (source ++ Byte.lineFeed :: follow)
  have spelled := joined_lexFrom true offset (source ++ Byte.lineFeed :: follow)
  obtain ⟨before, token, after, inner, rest, parted, rfl, covers, rfl⟩ :=
    exists_token_over spelled
  rw [parted] at all run
  obtain ⟨front, read, later⟩ := run_append.mp run
  rw [List.append_nil] at read
  rw [joined_cons, covers, List.append_assoc, List.append_assoc] at front
  obtain ⟨covered, coveredRun, text, gists⟩ := gist_lex_append front
  have significant : gist (token :: after) = gist covered ++ word :: more := by
    have equal := congrArg gist all
    rw [gist_append, gist_append, same, gists, next, List.append_assoc] at equal
    exact List.append_cancel_left equal
  have line := read.newline_of_over later covers text significant plain
    fun member => bare (List.mem_append_left _ member)
  have ends := read.newline_ends line covers
  rw [coveredRun.gist_eq_nil (text.symm ▸ ends.2), List.append_nil] at gists
  refine ⟨before ++ [token], ⟨?_, ?_, ?_⟩, ?_⟩
  · rw [joined_append, joined_cons, covers, ends.1, joined_nil, List.append_nil,
      List.append_assoc]
  · intro behind
    rw [← List.singleton_append, ← List.append_assoc] at run
    refine (run_append.mp run).1.restart line ?_
    rw [Apart, covers, ends.1, List.getLast?_concat]
    intro same
    cases same
  · exact lineStartAfter_newline true before line
  · have ignored : gist [token] = [] :=
      gist_eq_nil (by simp [isTrivia, line, TokenKind.isTrivia])
    rw [gists, gist_append, ignored, List.append_nil]

end Token

end Lineup
