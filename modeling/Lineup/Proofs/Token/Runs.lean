import Lineup.Proofs.Token.Cut

/-!
# Runs of tokens

A run is a sequence of tokens that the lexer reads one after the other in front of some
text. The tokens of a text are a run, any part of a run is one, and a run stays one when
the text behind it is cut off or replaced by a text that starts in the same way. In
particular the lexer can be restarted behind every line end.
-/

namespace Lineup

namespace Token

/-- The kind and the text of a token, without its place. -/
def face (token : Token) : TokenKind × Text :=
  (token.kind, token.text)

/-- The lexer reads the token where the text `behind` follows it. -/
inductive IsRead (lineStart : Bool) (token : Token) (behind : Text) : Prop where
  | intro {byte : UInt8} {more : Text} (spelled : token.text = byte :: more)
      (reads : Reads lineStart byte (more ++ behind) token.kind more.length)

/-- Whether only blanks precede, on its line, what follows the tokens. -/
def lineStartAfter (lineStart : Bool) (tokens : List Token) : Bool :=
  tokens.foldl (fun starts token => startsLine starts token.kind) lineStart

/-- The lexer reads the tokens one after the other where the text `behind` follows
them. -/
def Run (lineStart : Bool) : List Token → Text → Prop
  | [], _ => True
  | token :: rest, behind =>
      IsRead lineStart token (joined rest ++ behind)
        ∧ Run (startsLine lineStart token.kind) rest behind

/-- The tokens with the offsets they have from `offset` on. -/
def place (offset : Nat) : List Token → List Token
  | [] => []
  | token :: rest => { token with offset } :: place (offset + token.text.length) rest

@[simp] theorem lineStartAfter_nil (lineStart : Bool) :
    lineStartAfter lineStart [] = lineStart := rfl

@[simp] theorem lineStartAfter_cons (lineStart : Bool) (token : Token)
    (tokens : List Token) :
    lineStartAfter lineStart (token :: tokens)
      = lineStartAfter (startsLine lineStart token.kind) tokens := rfl

@[simp] theorem lineStartAfter_append (lineStart : Bool) (tokens others : List Token) :
    lineStartAfter lineStart (tokens ++ others)
      = lineStartAfter (lineStartAfter lineStart tokens) others := by
  simp [lineStartAfter]

theorem lineStartAfter_newline (lineStart : Bool) (tokens : List Token)
    {newline : Token} (is : newline.kind = .newline) :
    lineStartAfter lineStart (tokens ++ [newline]) = true := by
  rw [lineStartAfter_append, lineStartAfter_cons, is]
  rfl

@[simp] theorem map_face_place (offset : Nat) (tokens : List Token) :
    (place offset tokens).map face = tokens.map face := by
  induction tokens generalizing offset with
  | nil => rfl
  | cons token rest ih => simp [place, face, ih]

@[simp] theorem length_place (offset : Nat) (tokens : List Token) :
    (place offset tokens).length = tokens.length := by
  have sizes := congrArg List.length (map_face_place offset tokens)
  rwa [List.length_map, List.length_map] at sizes

theorem place_append (offset : Nat) (tokens others : List Token) :
    place offset (tokens ++ others)
      = place offset tokens ++ place (offset + (joined tokens).length) others := by
  induction tokens generalizing offset with
  | nil => rfl
  | cons token tokens ih =>
      rw [List.cons_append, place, place, ih, joined_cons, List.length_append,
        Nat.add_assoc, List.cons_append]

theorem run_append {lineStart : Bool} {tokens others : List Token} {behind : Text} :
    Run lineStart (tokens ++ others) behind ↔
      Run lineStart tokens (joined others ++ behind)
        ∧ Run (lineStartAfter lineStart tokens) others behind := by
  induction tokens generalizing lineStart with
  | nil => simp [Run]
  | cons token rest ih => simp [Run, ih, and_assoc]

/-- The tokens of a text are a run. -/
theorem run_lexFrom (lineStart : Bool) (offset : Nat) (text : Text) :
    Run lineStart (lexFrom lineStart offset text) [] := by
  induction size : text.length using Nat.strongRecOn generalizing text lineStart
    offset with
  | ind size ih =>
      subst size
      cases text with
      | nil => simp [Run]
      | cons byte rest =>
          have reads := first_reads lineStart byte rest
          rw [lexFrom_cons reads]
          refine ⟨.intro rfl ?_, ih _ ?_ _ _ _ rfl⟩
          · rw [joined_lexFrom, List.append_nil, List.take_append_drop,
              List.length_take, Nat.min_eq_left reads.width_le]
            exact reads
          · simp only [List.length_drop, List.length_cons]
            omega

/-- A run is what the lexer finds at the front of its text. -/
theorem lexFrom_run {lineStart : Bool} {tokens : List Token} {behind : Text}
    (run : Run lineStart tokens behind) (offset : Nat) :
    lexFrom lineStart offset (joined tokens ++ behind) = place offset tokens
      ++ lexFrom (lineStartAfter lineStart tokens) (offset + (joined tokens).length)
        behind := by
  induction tokens generalizing lineStart offset with
  | nil => simp [place]
  | cons token rest ih =>
      obtain ⟨read, later⟩ := run
      cases read with
      | @intro byte more spelled reads =>
          have next := ih later (offset + token.text.length)
          simp only [joined_cons, spelled, List.append_assoc, List.cons_append]
          rw [lexFrom_cons reads, List.take_left, List.drop_left]
          simp only [place, lineStartAfter_cons, spelled, List.length_cons,
            List.cons_append, List.length_append] at next ⊢
          rw [← Nat.add_assoc] at next
          rw [next]
          congr 3
          omega

theorem place_lexFrom (lineStart : Bool) (offset other : Nat) (text : Text) :
    place offset (lexFrom lineStart other text) = lexFrom lineStart offset text := by
  have same := lexFrom_run (run_lexFrom lineStart other text) offset
  simpa using same.symm

/-- The kinds and texts of the tokens do not depend on the place of the text. -/
theorem map_face_lexFrom (lineStart : Bool) (offset other : Nat) (text : Text) :
    (lexFrom lineStart offset text).map face
      = (lexFrom lineStart other text).map face := by
  rw [← place_lexFrom lineStart offset other, map_face_place]

theorem IsRead.cut {lineStart : Bool} {token : Token} {text old new : Text}
    (read : IsRead lineStart token (text ++ old)) (behind : Behind old new) :
    IsRead lineStart token (text ++ new) := by
  cases read with
  | @intro byte more spelled reads =>
      rw [← List.append_assoc] at reads
      have cut := reads.cut (by simp) behind
      rw [List.append_assoc] at cut
      exact .intro spelled cut

/-- A run stays one when a text further behind it is cut off, or replaced by a text that
starts in the same way. -/
theorem Run.cut_append {lineStart : Bool} {tokens : List Token} {text old new : Text}
    (run : Run lineStart tokens (text ++ old)) (behind : Behind old new) :
    Run lineStart tokens (text ++ new) := by
  induction tokens generalizing lineStart with
  | nil => trivial
  | cons token rest ih =>
      obtain ⟨read, later⟩ := run
      rw [← List.append_assoc] at read
      refine ⟨?_, ih later⟩
      rw [← List.append_assoc]
      exact read.cut behind

theorem Run.cut {lineStart : Bool} {tokens : List Token} {old new : Text}
    (run : Run lineStart tokens old) (behind : Behind old new) :
    Run lineStart tokens new :=
  @Run.cut_append lineStart tokens [] old new run behind

theorem IsRead.text_ne_nil {lineStart : Bool} {token : Token} {behind : Text}
    (read : IsRead lineStart token behind) : token.text ≠ [] := by
  cases read with
  | intro spelled => simp [spelled]

theorem Run.text_ne_nil {lineStart : Bool} {tokens : List Token} {behind : Text}
    (run : Run lineStart tokens behind) : ∀ token ∈ tokens, token.text ≠ [] := by
  induction tokens generalizing lineStart with
  | nil => simp
  | cons token rest ih => exact List.forall_mem_cons.mpr ⟨run.1.text_ne_nil, ih run.2⟩

theorem Run.eq_nil {lineStart : Bool} {tokens : List Token} {behind : Text}
    (run : Run lineStart tokens behind) (empty : joined tokens = []) : tokens = [] := by
  cases tokens with
  | nil => rfl
  | cons token rest =>
      rw [joined_cons, List.append_eq_nil_iff] at empty
      exact absurd empty.1 run.1.text_ne_nil

theorem IsRead.kind_of_lineFeed {lineStart : Bool} {token : Token} {behind : Text}
    (read : IsRead lineStart token behind)
    (starts : token.text.head? = some Byte.lineFeed) :
    token.kind = .newline := by
  cases read with
  | @intro byte more spelled reads =>
      rw [spelled] at starts
      cases starts
      have decided := reads.first_eq
      change (TokenKind.newline, 0) = _ at decided
      exact (Prod.mk.inj decided).1.symm

/-- A line end is one of three texts, and a carriage return takes a line feed along. -/
theorem IsRead.newline {lineStart : Bool} {token : Token} {behind : Text}
    (read : IsRead lineStart token behind) (is : token.kind = .newline) :
    token.text = [Byte.lineFeed] ∨ token.text = [Byte.carriageReturn, Byte.lineFeed] ∨
      token.text = [Byte.carriageReturn] ∧ behind.head? ≠ some Byte.lineFeed := by
  cases read with
  | @intro byte more spelled reads =>
      rw [is] at reads
      generalize size : more.length = width at reads
      cases reads with
      | lineFeed line =>
          rw [spelled, line, List.eq_nil_of_length_eq_zero size]
          exact .inl rfl
      | carriageReturn line =>
          rw [spelled, line]
          cases more with
          | nil =>
              refine .inr (.inr ⟨rfl, fun next => ?_⟩)
              rw [List.nil_append, next] at size
              cases size
          | cons next more =>
              cases different : next == Byte.lineFeed with
              | false => simp [different] at size
              | true =>
                  rw [eq_of_beq different] at size ⊢
                  rw [List.eq_nil_of_length_eq_zero
                    (by simpa using size : more.length = 0)]
                  exact .inr (.inl rfl)

/-- Whether the two texts, put together, keep their line ends apart. -/
def Apart (text behind : Text) : Prop :=
  text.getLast? = some Byte.carriageReturn → behind.head? ≠ some Byte.lineFeed

/-- A line end is read in front of every text that does not add a line feed to it. -/
theorem IsRead.newline_apart {lineStart : Bool} {token : Token} {old new : Text}
    (read : IsRead lineStart token old) (is : token.kind = .newline)
    (apart : Apart token.text new) (starts : Bool) : IsRead starts token new := by
  rcases read.newline is with line | line | ⟨line, -⟩
  · refine .intro line ?_
    rw [is]
    exact .lineFeed rfl
  · refine .intro line ?_
    have reads : Reads starts Byte.carriageReturn ([Byte.lineFeed] ++ new) _ _ :=
      .carriageReturn rfl
    rw [is]
    exact reads
  · refine .intro line ?_
    rw [line] at apart
    have reads : Reads starts Byte.carriageReturn ([] ++ new) _ _ := .carriageReturn rfl
    rw [is]
    rwa [if_neg (by simpa using apart rfl)] at reads

theorem IsRead.newline_behind {lineStart : Bool} {token : Token} {behind : Text}
    (read : IsRead lineStart token behind) (is : token.kind = .newline)
    (old new : Text) :
    Behind (token.text ++ old) (token.text ++ new) := by
  have lineFeed : Byte.isDecisive Byte.lineFeed = true := rfl
  have carriageReturn : Byte.isDecisive Byte.carriageReturn = true := rfl
  rcases read.newline is with line | line | ⟨line, -⟩
  · rw [line]
    exact .same [] lineFeed old new
  · rw [line]
    exact .same [] carriageReturn (Byte.lineFeed :: old) (Byte.lineFeed :: new)
  · rw [line]
    exact .same [] carriageReturn old new

/-- The lexer can be restarted behind a line end: the tokens up to it are read in front
of every text. -/
theorem Run.restart {lineStart : Bool} {tokens : List Token} {newline : Token}
    {old new : Text} (run : Run lineStart (tokens ++ [newline]) old)
    (is : newline.kind = .newline) (apart : Apart newline.text new) :
    Run lineStart (tokens ++ [newline]) new := by
  obtain ⟨line, read, -⟩ := run_append.mp run
  simp only [joined_cons, joined_nil, List.append_nil, List.nil_append] at line read
  refine run_append.mpr ⟨?_, ?_, trivial⟩
  · simp only [joined_cons, joined_nil, List.append_nil]
    exact line.cut (read.newline_behind is old new)
  · exact read.newline_apart is apart _

end Token

end Lineup
