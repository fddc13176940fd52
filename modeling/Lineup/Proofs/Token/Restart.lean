import Lineup.Proofs.Token.Runs

/-!
# Restarting the lexer

Behind a line end the lexer starts anew: no token in front of a line end looks past it.
So a text that ends with a line end can be lexed on its own, and what follows as well.
Only a carriage return and a line feed behind it must not be torn apart, since they are
one line end.
-/

namespace Lineup

namespace Token

/-- The token in a text that stands further behind. -/
def shift (distance : Nat) (token : Token) : Token :=
  { token with offset := distance + token.offset }

@[simp] theorem joined_shift (distance : Nat) (tokens : List Token) :
    joined (tokens.map (shift distance)) = joined tokens :=
  List.flatMap_map ..

theorem place_shift (distance offset : Nat) (tokens : List Token) :
    place (distance + offset) tokens = (place offset tokens).map (shift distance) := by
  induction tokens generalizing offset with
  | nil => rfl
  | cons token tokens ih => rw [place, place, List.map_cons, Nat.add_assoc, ih, shift]

theorem lexFrom_shift (lineStart : Bool) (distance : Nat) (text : Text) :
    lexFrom lineStart distance text
      = (lexFrom lineStart 0 text).map (shift distance) := by
  rw [← place_lexFrom lineStart distance 0, ← Nat.add_zero distance, place_shift,
    place_lexFrom, Nat.add_zero]

/-- The text is empty, or a line end is its last token. -/
def EndsLine (text : Text) : Prop :=
  text = [] ∨ ∃ newline ∈ (lex text).getLast?, newline.kind = .newline

instance (text : Text) : Decidable (EndsLine text) :=
  inferInstanceAs (Decidable
    (text = [] ∨ ∃ newline ∈ (lex text).getLast?, newline.kind = .newline))

/-- A text that ends with a line end, and the tokens in front of that line end. -/
theorem EndsLine.cases {text : Text} (ends : EndsLine text) :
    text = [] ∨ ∃ tokens newline, lex text = tokens ++ [newline]
      ∧ newline.kind = .newline := by
  refine ends.imp_right fun ⟨newline, last, is⟩ => ?_
  obtain ⟨tokens, all⟩ := List.getLast?_eq_some_iff.mp last
  exact ⟨tokens, newline, all, is⟩

/-- The last byte of a text is the last byte of its last token. -/
theorem getLast?_of_lex {text : Text} {tokens : List Token} {last : Token}
    (all : lex text = tokens ++ [last]) : text.getLast? = last.text.getLast? := by
  have run := run_lexFrom true 0 text
  rw [← lex, all] at run
  have present := (run_append.mp run).2.1.text_ne_nil
  rw [← joined_lex text, all, joined_append, joined_cons, joined_nil, List.append_nil,
    List.getLast?_append_of_ne_nil _ present]

/-- Behind a line end, or at the very beginning, a text is lexed as on its own exactly
when it does not turn a carriage return in front of it into a longer line end. -/
theorem lex_append_iff {text : Text} (ends : EndsLine text) (behind : Text) :
    lex (text ++ behind) = lex text ++ (lex behind).map (shift text.length)
      ↔ Apart text behind := by
  rcases ends.cases with rfl | ⟨tokens, newline, all, is⟩
  · have still : (lex behind).map (shift 0) = lex behind :=
      (lexFrom_shift true 0 behind).symm
    rw [List.nil_append, List.length_nil, still]
    exact iff_of_true (congrArg (· ++ lex behind) (lexFrom_nil true 0).symm) nofun
  have run := run_lexFrom true 0 text
  rw [← lex, all] at run
  rw [Apart, getLast?_of_lex all]
  constructor
  · -- The line end is read in front of the text behind it, so it has taken in what
    -- belongs to it.
    intro same final next
    have longer := run_lexFrom true 0 (text ++ behind)
    rw [← lex, same, all] at longer
    have read := (run_append.mp (run_append.mp longer).1).2.1
    rw [joined_nil, List.nil_append, joined_shift, joined_lex, List.append_nil] at read
    rcases read.newline is with spelled | spelled | ⟨-, apart⟩
    · rw [spelled] at final
      cases final
    · rw [spelled] at final
      cases final
    · exact apart next
  · intro apart
    have placed : place 0 (lex text) = lex text := place_lexFrom true 0 0 text
    have restarted := lexFrom_run (run.restart is apart) 0
    rwa [lineStartAfter_newline _ _ is, ← all, joined_lex, placed, Nat.zero_add,
      lexFrom_shift true text.length] at restarted

/-- A line with signs that may start a literal, a comment with an open brace, and a
preprocessor line behind it. -/
theorem lex_append_iff_signs :
    let text := utf8 "$@x = $\"\x7b'a'\x7d\"; // \x7b\"\r"
    let behind := utf8 "#if \"a\n"
    EndsLine text ∧ lex (text ++ behind)
      = lex text ++ (lex behind).map (shift text.length) := by
  intro text behind
  have ends : EndsLine text := by decide +kernel
  refine ⟨ends, (lex_append_iff ends behind).mpr ?_⟩
  intro _ next
  exact absurd next (by decide)

end Token

end Lineup
