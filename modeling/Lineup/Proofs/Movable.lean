import Lineup.Proofs.Arrange
import Lineup.Proofs.Syntax.Items
import Lineup.Proofs.Token.Replaces

/-!
# Trivia that can be moved

The lines in front of an item and the trivia behind it are read in the same way wherever
they are put. Tidying the lines keeps what they say, and the line end that moves from
one item to another is a token of its own.
-/

namespace Lineup

namespace Token

theorem joined_congr {tokens others : List Token}
    (same : tokens.map face = others.map face) :
    joined tokens = joined others := by
  have flat (tokens : List Token) :
      joined tokens = (tokens.map face).flatMap Prod.snd := by
    simp [joined, List.flatMap_map, face]
  rw [flat, flat, same]

theorem IsRead.congr {lineStart : Bool} {token other : Token} {behind : Text}
    (read : IsRead lineStart token behind) (same : token.face = other.face) :
    IsRead lineStart other behind := by
  have kind : token.kind = other.kind := congrArg Prod.fst same
  have text : token.text = other.text := congrArg Prod.snd same
  cases read with
  | intro spelled reads => exact .intro (text ▸ spelled) (kind ▸ reads)

/-- Only kinds and texts matter for how tokens are read. -/
theorem Run.congr {lineStart : Bool} {tokens others : List Token} {behind : Text}
    (run : Run lineStart tokens behind) (same : tokens.map face = others.map face) :
    Run lineStart others behind := by
  induction tokens generalizing lineStart others with
  | nil =>
      cases others with
      | nil => trivial
      | cons other others => cases same
  | cons token tokens ih =>
      cases others with
      | nil => cases same
      | cons other others =>
          simp only [List.map_cons, List.cons.injEq] at same
          obtain ⟨first, rest⟩ := same
          have kind : token.kind = other.kind := congrArg Prod.fst first
          refine ⟨?_, by rw [← kind]; exact ih run.2 rest⟩
          rw [← joined_congr rest]
          exact run.1.congr first

/-- Only kinds and texts matter for how tokens stand. -/
theorem Stands.congr {lineStart : Bool} {tokens others : List Token} {behind : Text}
    (stands : Stands lineStart tokens behind)
    (same : tokens.map face = others.map face) :
    Stands lineStart others behind := by
  induction tokens generalizing lineStart others with
  | nil =>
      cases others with
      | nil => trivial
      | cons other others => cases same
  | cons token tokens ih =>
      cases others with
      | nil => cases same
      | cons other others =>
          simp only [List.map_cons, List.cons.injEq] at same
          obtain ⟨first, rest⟩ := same
          have kind : token.kind = other.kind := congrArg Prod.fst first
          have text : token.text = other.text := congrArg Prod.snd first
          obtain ⟨holds, later⟩ := stands
          refine ⟨?_, by rw [← kind]; exact ih later rest⟩
          rw [← joined_congr rest]
          cases holds with
          | space is spaces => exact .space (kind ▸ is) (text ▸ spaces)
          | newline is ends => exact .newline (kind ▸ is) (text ▸ ends)
          | read solid read => exact .read (kind ▸ solid) (read.congr first)

theorem Free.congr {tokens others : List Token} (free : Free tokens)
    (same : tokens.map face = others.map face) : Free others :=
  fun lineStart behind => (free lineStart behind).congr same

/-- The tokens of a run are found again in its text. -/
theorem Run.map_face_lex {tokens : List Token} {behind : Text}
    (run : Run true tokens behind) :
    (lex (joined tokens)).map face = tokens.map face := by
  have found := lexFrom_run (run.cut (.nothing behind)) 0
  rw [List.append_nil, lexFrom_nil, List.append_nil] at found
  rw [lex, found, map_face_place]

theorem Run.contentFrom {tokens : List Token} {behind : Text}
    (run : Run true tokens behind) :
    Token.contentFrom true (joined tokens) = content tokens := by
  rw [Token.contentFrom, content, content]
  exact congrArg _ run.map_face_lex

end Token

namespace TriviaLine

open Token (Run Free run_append)

/-- The tokens of consecutive lines, line by line. -/
def tokens (lines : List TriviaLine) : List Token :=
  lines.flatMap fun line => Token.lex line.text

@[simp] theorem joined_tokens (lines : List TriviaLine) :
    Token.joined (tokens lines) = joined lines := by
  induction lines with
  | nil => rfl
  | cons line lines ih =>
      simp only [tokens, joined, List.flatMap_cons, Token.joined_append,
        Token.joined_lex] at ih ⊢
      rw [ih]

theorem free_tokens {lines : List TriviaLine}
    (free : ∀ line ∈ lines, Free (Token.lex line.text)) :
    Free (tokens lines) := by
  induction lines with
  | nil => exact .nil
  | cons line lines ih =>
      exact (free line (by simp)).append (ih fun each member =>
        free each (List.mem_cons_of_mem _ member))

namespace Lines

variable {lines : List TriviaLine} {trivia : List Token}

/-- The tokens of lines are those of each line on its own. -/
theorem map_face_tokens (made : Lines lines trivia) :
    (TriviaLine.tokens lines).map Token.face = trivia.map Token.face := by
  induction made with
  | nil => rfl
  | last present plain run => simpa [TriviaLine.tokens, ofTokens] using run.map_face_lex
  | @cons line others newline lines plain is run rest ih =>
      have first := run.map_face_lex
      simp only [Token.joined_append, Token.joined_cons, Token.joined_nil,
        List.append_nil, List.map_append, List.map_cons, List.map_nil] at first
      rw [TriviaLine.tokens] at ih
      simp only [TriviaLine.tokens, List.flatMap_cons, complete, ofTokens,
        List.map_append, first, ih]
      simp

/-- The lines of trivia that something follows are free, except for preprocessor
lines. -/
theorem free {lineStart : Bool} {behind : Text} (made : Lines lines trivia)
    (run : Run lineStart trivia behind)
    (plain : ∀ token ∈ trivia, token.isTrivia = true ∧ token.kind ≠ .directive)
    (present : behind ≠ [])
    (closed : ∀ token ∈ trivia.getLast?, token.kind ≠ .lineComment) :
    ∀ line ∈ lines, Free (Token.lex line.text) := by
  induction made generalizing lineStart with
  | nil => simp
  | last _ _ own =>
      intro line member
      rw [List.mem_singleton.mp member]
      exact (run.free plain present closed).congr own.map_face_lex.symm
  | @cons first others newline lines _ is own rest ih =>
      rw [List.append_cons] at run plain closed
      obtain ⟨front, later⟩ := run_append.mp run
      intro line member
      rcases List.mem_cons.mp member with rfl | member
      · have same := own.map_face_lex.symm
        simp only [Token.joined_append, Token.joined_cons, Token.joined_nil,
          List.append_nil] at same
        refine Free.congr (front.free (fun token within => ?_) (by simp [present]) ?_)
          same
        · exact plain token (List.mem_append_left _ within)
        · simp [is]
      · refine ih later (fun token within =>
          plain token (List.mem_append_right _ within)) ?_ line member
        intro token last
        refine closed token ?_
        rw [List.getLast?_append, last]
        rfl

theorem content_tokens (made : Lines lines trivia) :
    Token.content (TriviaLine.tokens lines) = Token.content trivia := by
  rw [Token.content, made.map_face_tokens, Token.content]

theorem content_of_isBlank (made : Lines lines trivia) {line : TriviaLine}
    (member : line ∈ lines) (blank : line.isBlank = true) :
    Token.content (Token.lex line.text) = [] := by
  induction made with
  | nil => cases member
  | last =>
      rw [List.mem_singleton.mp member] at blank
      cases blank
  | @cons first others newline lines _ is own rest ih =>
      rcases List.mem_cons.mp member with rfl | member
      · have said := own.contentFrom
        simp only [Token.joined_append, Token.joined_cons, Token.joined_nil,
          List.append_nil] at said
        refine said.trans ?_
        simp only [isBlank, complete, ofTokens, Bool.true_and, List.all_eq_true,
          beq_iff_eq] at blank
        simp only [Token.content, List.filter_eq_nil_iff, List.mem_map, Token.face]
        rintro face ⟨token, within, rfl⟩
        rcases List.mem_append.mp within with within | within
        · simp [blank token within, TokenKind.isBlank]
        · simp [List.mem_singleton.mp within, is, TokenKind.isBlank]
      · exact ih member

end Lines

/-- Lines without preprocessor lines are those that are made of other tokens. -/
theorem Lines.hasDirective_iff {lines : List TriviaLine} {trivia : List Token}
    (made : Lines lines trivia) : (∀ line ∈ lines, line.hasDirective = false)
      ↔ ∀ token ∈ trivia, token.kind ≠ .directive := by
  induction made with
  | nil => simp
  | last => simp [ofTokens]
  | cons _ is _ _ ih =>
      rw [List.forall_mem_cons, List.forall_mem_append, List.forall_mem_cons, ih]
      simp [complete, ofTokens, is]

/-- Only lines that are not blank say something. -/
theorem content_tokens_contents {lines : List TriviaLine}
    (blank : ∀ line ∈ lines, line.isBlank = true →
      Token.content (Token.lex line.text) = []) :
    Token.content (tokens lines) = Token.content (tokens (contents lines)) := by
  induction lines with
  | nil => rfl
  | cons line lines ih =>
      have rest := ih fun each member => blank each (List.mem_cons_of_mem _ member)
      simp only [tokens, contents] at rest
      cases is : line.isBlank with
      | true => simp [tokens, contents, is, blank line (by simp) is, rest]
      | false => simp [tokens, contents, is, rest]

theorem mem_of_mem_collapseFrom {afterBlank : Bool} {lines : List TriviaLine}
    {line : TriviaLine} (member : line ∈ collapseFrom afterBlank lines) :
    line ∈ lines := by
  induction lines generalizing afterBlank with
  | nil => exact member
  | cons first lines ih =>
      simp only [collapseFrom] at member
      split at member
      · exact List.mem_cons_of_mem _ (ih member)
      · rcases List.mem_cons.mp member with rfl | later
        · exact List.mem_cons_self
        · exact List.mem_cons_of_mem _ (ih later)

/-- Lines of which only blank ones are taken away say the same. -/
theorem Lines.content_kept {lines kept : List TriviaLine} {trivia : List Token}
    (made : Lines lines trivia) (within : ∀ line ∈ kept, line ∈ lines)
    (same : contents kept = contents lines) :
    Token.content (tokens kept) = Token.content trivia := by
  have blank : ∀ line ∈ lines, line.isBlank = true →
      Token.content (Token.lex line.text) = [] :=
    fun _ member is => made.content_of_isBlank member is
  rw [content_tokens_contents fun line member => blank line (within line member), same,
    ← content_tokens_contents blank, made.content_tokens]

/-- Complete lines can be taken off the front. -/
theorem Lines.split_front {header lines : List TriviaLine} {trivia : List Token}
    (made : Lines (header ++ lines) trivia)
    (complete : ∀ line ∈ header, line.isComplete = true) :
    ∃ front own, trivia = front ++ own ∧ Token.joined front = joined header
      ∧ Lines lines own
      ∧ (front = [] ∨ ∃ before newline, front = before ++ [newline]
        ∧ newline.kind = .newline) := by
  induction header generalizing trivia with
  | nil => exact ⟨[], trivia, rfl, rfl, made, .inl rfl⟩
  | cons line header ih =>
      have done := complete line (by simp)
      rw [List.cons_append] at made
      generalize whole : header ++ lines = all at made
      cases made with
      | last => cases done
      | @cons first others newline _ plain is run rest =>
          subst whole
          obtain ⟨front, own, rfl, text, later, ends⟩ :=
            ih rest fun each member => complete each (List.mem_cons_of_mem _ member)
          refine ⟨first ++ [newline] ++ front, own, by simp, ?_, later, .inr ?_⟩
          · simp [text, joined, TriviaLine.complete, ofTokens]
          · rcases ends with rfl | ⟨before, last, rfl, isLine⟩
            · exact ⟨first, newline, by simp, is⟩
            · exact ⟨first ++ [newline] ++ before, last, by simp, isLine⟩

end TriviaLine

theorem Text.getLast?_of_endsWith {text ending : Text} {byte : UInt8}
    (ends : text.endsWith (ending ++ [byte]) = true) : text.getLast? = some byte := by
  obtain ⟨front, rfl⟩ := List.isSuffixOf_iff_suffix.mp ends
  simp

/-- A text whose last byte does not end a line has no line end. -/
theorem Text.lineEnd_eq_nil {text : Text}
    (last : ∀ byte ∈ text.getLast?, Byte.isLineEnd byte = false) :
    text.lineEnd = [] := by
  have other (ending : Text) {byte : UInt8} (ends : Byte.isLineEnd byte = true) :
      text.endsWith (ending ++ [byte]) = false := by
    refine Bool.eq_false_iff.mpr fun suffix => ?_
    rw [last byte (Text.getLast?_of_endsWith suffix)] at ends
    cases ends
  have both := other [Byte.carriageReturn]
    (show Byte.isLineEnd Byte.lineFeed = true from rfl)
  have lineFeed := other [] (show Byte.isLineEnd Byte.lineFeed = true from rfl)
  have carriageReturn :=
    other [] (show Byte.isLineEnd Byte.carriageReturn = true from rfl)
  simp only [List.cons_append, List.nil_append] at both lineFeed carriageReturn
  simp [Text.lineEnd, both, lineFeed, carriageReturn]

/-- A text has a line end exactly when its last byte ends a line. -/
theorem Text.lineEnd_ne_nil_iff (text : Text) :
    text.lineEnd ≠ [] ↔ ∃ byte ∈ text.getLast?, Byte.isLineEnd byte = true := by
  constructor
  · intro ends
    by_contra plain
    refine ends (Text.lineEnd_eq_nil fun byte last => ?_)
    exact Bool.eq_false_iff.mpr fun is => plain ⟨byte, last, is⟩
  · rintro ⟨byte, last, is⟩ empty
    obtain ⟨front, rfl⟩ := List.getLast?_eq_some_iff.mp last
    have suffix : Text.endsWith (front ++ [byte]) [byte] = true :=
      List.isSuffixOf_iff_suffix.mpr (List.suffix_append front [byte])
    rw [Text.lineEnd] at empty
    split at empty
    · cases empty
    split at empty
    · cases empty
    split at empty
    · cases empty
    rename_i both lineFeed carriageReturn
    simp only [Byte.isLineEnd, Bool.or_eq_true, beq_iff_eq] at is
    rcases is with rfl | rfl
    · exact lineFeed suffix
    · exact carriageReturn suffix

/-- The line end at the end of a text, when it is not cut in two. -/
theorem Text.lineEnd_append {text ending : Text}
    (is : Token.isLineEndText ending = true)
    (last : ∀ byte ∈ text.getLast?, Byte.isLineEnd byte = false) :
    Text.lineEnd (text ++ ending) = ending := by
  have own (ending : Text) : Text.endsWith (text ++ ending) ending = true :=
    List.isSuffixOf_iff_suffix.mpr (List.suffix_append text ending)
  simp only [Token.isLineEndText, Bool.or_eq_true, beq_iff_eq] at is
  rcases is with (rfl | rfl) | rfl
  · have both : Text.endsWith (text ++ [Byte.lineFeed])
        [Byte.carriageReturn, Byte.lineFeed]
        = false := by
      refine Bool.eq_false_iff.mpr fun suffix => ?_
      obtain ⟨front, parted⟩ := List.isSuffixOf_iff_suffix.mp suffix
      rw [List.append_cons] at parted
      have same := List.append_inj_left' parted rfl
      have ends := last Byte.carriageReturn (by simp [← same])
      cases ends
    rw [Text.lineEnd, both, own]
    rfl
  · have other (ending : Text) : Text.endsWith (text ++ [Byte.carriageReturn])
        (ending ++ [Byte.lineFeed]) = false := by
      refine Bool.eq_false_iff.mpr fun suffix => ?_
      have found := Text.getLast?_of_endsWith suffix
      rw [List.getLast?_append] at found
      cases found
    have both := other [Byte.carriageReturn]
    have lineFeed := other []
    simp only [List.cons_append, List.nil_append] at both lineFeed
    rw [Text.lineEnd, both, lineFeed, own]
    rfl
  · rw [Text.lineEnd, own]
    rfl

namespace Span

/-- The trivia behind an item: no preprocessor lines, a line end at its end only, and if
it has none, something significant or a preprocessor line behind it. -/
theorem trailing_spec {trail after : List Token}
    (trails : trailing (trail ++ after) = trail.length) :
    (∀ token ∈ trail, token.isTrivia = true ∧ token.kind ≠ .directive) ∧
      ((∃ front newline, trail = front ++ [newline] ∧ newline.kind = .newline
          ∧ ∀ token ∈ front, token.kind ≠ .newline) ∨
        (∀ token ∈ trail, token.kind ≠ .newline)
          ∧ ∀ token ∈ after.head?, token.isTrivia = false
          ∨ token.kind = .directive) := by
  induction trail with
  | nil =>
      refine ⟨by simp, .inr ⟨by simp, fun token next => ?_⟩⟩
      cases after with
      | nil => cases next
      | cons first after =>
          obtain rfl := Option.some.inj next
          simp only [List.nil_append, trailing, List.length_nil] at trails
          by_cases stops : (!first.isTrivia || first.kind == .directive) = true
          · simpa using stops
          · rw [if_neg stops] at trails
            split at trails <;> omega
  | cons token trail ih =>
      simp only [List.cons_append, trailing, List.length_cons] at trails
      by_cases stops : (!token.isTrivia || token.kind == .directive) = true
      · rw [if_pos stops] at trails
        omega
      have first : token.isTrivia = true ∧ token.kind ≠ .directive := by
        simpa using stops
      rw [if_neg stops] at trails
      by_cases line : token.kind = .newline
      · rw [if_pos (by simpa using line)] at trails
        obtain rfl : trail = [] := List.eq_nil_of_length_eq_zero (by omega)
        exact ⟨by simpa using first, .inl ⟨[], token, rfl, line, by simp⟩⟩
      · rw [if_neg (by simpa using line)] at trails
        obtain ⟨trivia, ends⟩ := ih (by omega)
        refine ⟨List.forall_mem_cons.mpr ⟨first, trivia⟩, ?_⟩
        rcases ends with ⟨front, newline, rfl, is, plain⟩ | ⟨plain, next⟩
        · exact .inl ⟨token :: front, newline, rfl, is,
            List.forall_mem_cons.mpr ⟨line, plain⟩⟩
        · exact .inr ⟨List.forall_mem_cons.mpr ⟨line, plain⟩, next⟩

open Token (Run run_append Free)

/-- Trivia behind an item that something follows can be put in front of anything. -/
theorem trailing_free {lineStart : Bool} {trail after : List Token}
    (trails : trailing (trail ++ after) = trail.length)
    (run : Run lineStart (trail ++ after) []) (present : after ≠ []) :
    Free trail ∧ (trail = [] ∨ ∃ front final, trail = front ++ [final]
      ∧ final.isShut = true) := by
  obtain ⟨trivia, ends⟩ := trailing_spec trails
  obtain ⟨own, later⟩ := run_append.mp run
  obtain ⟨first, rest, rfl⟩ := List.exists_cons_of_ne_nil present
  have following : Token.joined (first :: rest) ++ [] ≠ [] := by
    simp [later.1.text_ne_nil]
  -- A line comment at the end would be followed by its line end, which would then
  -- belong to it.
  have closed : ∀ token ∈ trail.getLast?, token.kind ≠ .lineComment := by
    intro token last comment
    rcases ends with ⟨front, newline, rfl, is, -⟩ | ⟨-, next⟩
    · simp only [List.getLast?_concat, Option.mem_def, Option.some.injEq] at last
      rw [last, comment] at is
      cases is
    · obtain ⟨front, rfl⟩ := List.getLast?_eq_some_iff.mp last
      have read := (run_append.mp own).2.1
      rw [Token.joined_nil, List.nil_append, Token.joined_cons,
        List.append_assoc] at read
      have blank := read.isBlank_of_lineComment comment later.1
      rcases next first (by simp) with significant | directive
      · rw [Token.isBlank_of_significant significant] at blank
        cases blank
      · rw [directive] at blank
        cases blank
  refine ⟨own.free trivia following closed, ?_⟩
  cases last : trail.getLast? with
  | none => exact .inl (List.getLast?_eq_none_iff.mp last)
  | some final =>
      obtain ⟨front, rfl⟩ := List.getLast?_eq_some_iff.mp last
      refine .inr ⟨front, final, rfl, ?_⟩
      obtain ⟨ignored, plain⟩ := trivia final (by simp)
      have comment := closed final (by simp)
      rw [Token.isTrivia] at ignored
      cases kind : final.kind <;> simp_all
        [Token.isShut, TokenKind.isTrivia, TokenKind.isBlank]

/-- Comments and blanks that something follows do not end with a line end. -/
theorem getLast?_joined {lineStart : Bool} {trail : List Token} {behind : Text}
    (run : Run lineStart trail behind) (present : behind ≠ [])
    (trivia : ∀ token ∈ trail, token.isTrivia = true ∧ token.kind ≠ .directive)
    (inline : ∀ token ∈ trail, token.kind ≠ .newline) :
    ∀ byte ∈ (Token.joined trail).getLast?, Byte.isLineEnd byte = false := by
  cases last : trail.getLast? with
  | none =>
      rw [List.getLast?_eq_none_iff.mp last]
      simp
  | some final =>
      obtain ⟨front, rfl⟩ := List.getLast?_eq_some_iff.mp last
      obtain ⟨-, read, -⟩ := run_append.mp run
      obtain ⟨ignored, plain⟩ := trivia final (by simp)
      rw [Token.joined_append, Token.joined_cons, Token.joined_nil, List.append_nil,
        List.getLast?_append_of_ne_nil _ read.text_ne_nil]
      rw [Token.joined_nil, List.nil_append] at read
      exact read.getLast? ignored plain (inline final (by simp)) present

/-- The line end of trivia behind an item that something follows is its last token. -/
theorem trailing_lineEnd {lineStart : Bool} {trail after : List Token}
    (trails : trailing (trail ++ after) = trail.length)
    (run : Run lineStart (trail ++ after) []) (present : after ≠ []) :
    (Token.joined trail).lineEnd = [] ∨ ∃ front newline, trail = front ++ [newline]
      ∧ newline.kind = .newline ∧ newline.text = (Token.joined trail).lineEnd := by
  obtain ⟨trivia, ends⟩ := trailing_spec trails
  obtain ⟨own, later⟩ := run_append.mp run
  obtain ⟨first, rest, rfl⟩ := List.exists_cons_of_ne_nil present
  have following : Token.joined (first :: rest) ++ [] ≠ [] := by
    simp [later.1.text_ne_nil]
  rcases ends with ⟨front, newline, rfl, is, inline⟩ | ⟨inline, -⟩
  · right
    refine ⟨front, newline, rfl, is, ?_⟩
    obtain ⟨before, read, -⟩ := run_append.mp own
    have text : Token.isLineEndText newline.text = true := by
      cases read.holds with
      | space other => rw [is] at other; cases other
      | newline _ ends => exact ends
      | read solid => rw [is] at solid; cases solid
    have last := getLast?_joined before (by simp [read.text_ne_nil])
      (fun token member => trivia token (List.mem_append_left _ member)) inline
    rw [Token.joined_append, Token.joined_cons, Token.joined_nil, List.append_nil,
      Text.lineEnd_append text last]
  · exact .inl (Text.lineEnd_eq_nil (getLast?_joined own following trivia inline))

end Span

end Lineup
