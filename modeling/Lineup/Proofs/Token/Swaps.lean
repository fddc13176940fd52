import Lineup.Proofs.Movable
import Lineup.Proofs.Syntax.Ended

/-!
# Changing a text line by line

Behind a line feed the lexer starts anew, whatever follows. So tokens that end with a
line can be put in the place of others that do, as long as a line starts where they
stand: what is read in front of them and behind them stays as it was.
-/

namespace Lineup

namespace Token

/-- The tokens end with a line end, and a line feed is the last byte of it. -/
inductive LineFed : List Token → Prop where
  | intro (front : List Token) {newline : Token} (is : newline.kind = .newline)
      (feeds : newline.text.getLast? = some Byte.lineFeed) :
        LineFed (front ++ [newline])

/-- Whether a text ends with a line end, and a line feed is the last byte of it. -/
def isLineFed (text : Text) : Bool :=
  (lex text).getLast?.any fun last =>
    last.kind == .newline && last.text.getLast? == some Byte.lineFeed

theorem lineFed_iff {tokens : List Token} :
    LineFed tokens ↔ ∃ newline ∈ tokens.getLast?,
    newline.kind = .newline ∧ newline.text.getLast? = some Byte.lineFeed := by
  constructor
  · rintro ⟨front, is, feeds⟩
    exact ⟨_, List.getLast?_concat, is, feeds⟩
  · rintro ⟨newline, last, is, feeds⟩
    obtain ⟨front, rfl⟩ := List.getLast?_eq_some_iff.mp last
    exact .intro front is feeds

/-- Tokens that start a line end with a line exactly when their text does. -/
theorem Run.isLineFed_iff {tokens : List Token} {behind : Text}
    (run : Run true tokens behind) :
    isLineFed (joined tokens) = true ↔ LineFed tokens := by
  have faces (tokens : List Token) : tokens.getLast?.any (fun last =>
        last.kind == .newline && last.text.getLast? == some Byte.lineFeed)
      = (tokens.map face).getLast?.any fun last =>
        last.1 == .newline && last.2.getLast? == some Byte.lineFeed := by
    rw [List.getLast?_map, Option.any_map]
    rfl
  rw [isLineFed, faces, run.map_face_lex, ← faces, lineFed_iff]
  cases tokens.getLast? with
  | none => simp
  | some last => simp

namespace LineFed

variable {tokens : List Token}

theorem append (fed : LineFed tokens) (front : List Token) :
    LineFed (front ++ tokens) := by
  cases fed with
  | intro before is feeds =>
      rw [← List.append_assoc]
      exact .intro (front ++ before) is feeds

theorem ne_nil (fed : LineFed tokens) : tokens ≠ [] := by
  cases fed with
  | intro front => simp

theorem lineStartAfter_eq (fed : LineFed tokens) (lineStart : Bool) :
    lineStartAfter lineStart tokens = true := by
  cases fed with
  | intro front is => exact lineStartAfter_newline lineStart front is

/-- What ends with a line feed is read in front of everything. -/
theorem run (fed : LineFed tokens) {lineStart : Bool} {old : Text}
    (run : Run lineStart tokens old) (new : Text) : Run lineStart tokens new := by
  cases fed with
  | intro front is feeds =>
      apply run.restart is
      intro other
      rw [feeds] at other
      cases other

theorem ended (fed : LineFed tokens) {old : Text} (run : Run true tokens old) :
    Ended (joined tokens) tokens where
  spelled := rfl
  reads := fed.run run
  starts := fed.lineStartAfter_eq true

end LineFed

/-- A line starts behind the tokens, whatever follows them. -/
inductive StartsLine (lineStart : Bool) : List Token → Prop where
  | start (is : lineStart = true) : StartsLine lineStart []
  | behind {tokens : List Token} (fed : LineFed tokens) : StartsLine lineStart tokens

namespace StartsLine

variable {lineStart : Bool} {tokens : List Token}

theorem lineStartAfter_eq (starts : StartsLine lineStart tokens) :
    lineStartAfter lineStart tokens = true := by
  cases starts with
  | start is => exact is
  | behind fed => exact fed.lineStartAfter_eq lineStart

theorem run (starts : StartsLine lineStart tokens) {old : Text}
    (run : Run lineStart tokens old) (new : Text) : Run lineStart tokens new := by
  cases starts with
  | start => trivial
  | behind fed => exact fed.run run new

end StartsLine

/-- The tokens `new` can be read wherever the tokens `old` are read, if need be at the
start of a line only. -/
def Swaps (lined : Bool) (old new : List Token) : Prop :=
  ∀ (lineStart : Bool) (before after : List Token) (behind : Text),
    (lined = true → StartsLine lineStart before) →
    Run lineStart (before ++ (old ++ after)) behind →
      Run lineStart (before ++ (new ++ after)) behind

namespace Swaps

variable {lined : Bool} {old new : List Token}

theorem refl (lined : Bool) (tokens : List Token) : Swaps lined tokens tokens :=
  fun _ _ _ _ _ run => run

/-- One part after the other, where the second one needs the start of a line only behind
a line feed. -/
theorem append (swaps : Swaps lined old new) {next : Bool} {more others : List Token}
    (later : Swaps next more others) (fed : next = true → LineFed new) :
    Swaps lined (old ++ more) (new ++ others) := by
  intro lineStart before after behind starts run
  rw [List.append_assoc] at run ⊢
  have first := swaps lineStart before (more ++ after) behind starts run
  rw [← List.append_assoc] at first ⊢
  exact later lineStart (before ++ new) after behind
    (fun asked => .behind ((fed asked).append before)) first

theorem append_free (swaps : Swaps lined old new) {more others : List Token}
    (later : Swaps false more others) : Swaps lined (old ++ more) (new ++ others) :=
  swaps.append later nofun

/-- Whole lines can be put in the place of whole lines. -/
theorem lines (fed : LineFed old) {text : Text} (ended : Ended text new) :
    Swaps true old new := by
  intro lineStart before after behind starts run
  have starts := starts rfl
  obtain ⟨front, later⟩ := run_append.mp run
  rw [starts.lineStartAfter_eq] at later
  have rest := (run_append.mp later).2
  rw [fed.lineStartAfter_eq] at rest
  refine run_append.mpr ⟨starts.run front _, ?_⟩
  rw [starts.lineStartAfter_eq]
  refine run_append.mpr ⟨ended.reads _, ?_⟩
  rwa [ended.starts]

end Swaps

end Token

end Lineup
