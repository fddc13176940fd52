import Mathlib.Data.List.Chain
import Lineup.Proofs.Token.Runs

/-!
# Tokens cover the text

The tokens of a text lie side by side from its start to its end, and each is the piece
of the text between its own two offsets. No scanner reaches past the end of the text,
and all of them move on. This holds for scans inside of other scans as well: code in an
interpolated string and literals in that code are scanned on their own, and the scan
around them goes on where they end.
-/

namespace Lineup

namespace Literal

variable {inner outer : List Enclosure}

theorem reach_add (enclosures : List Enclosure) (text : Text)
    (position distance : Nat) :
    reach enclosures text (position + distance)
      = reach enclosures text position + distance := by
  induction text generalizing enclosures position with
  | nil => rw [reach_nil, reach_nil]
  | cons byte rest ih =>
      cases enclosures with
      | nil => simp only [reach]
      | cons first others =>
          have next (enclosures : List Enclosure) :
              reach enclosures rest (position + distance + 1)
                = reach enclosures rest (position + 1) + distance := by
            rw [Nat.add_right_comm, ih]
          simp only [reach, next]
          split
          · split
            · rfl
            · rfl
          · rfl

theorem width_cons {first : Enclosure} {others : List Enclosure} {byte : UInt8}
    {rest : Text} (stays : first.endsBefore byte = false) :
    width (first :: others) (byte :: rest)
      = width (first.advance byte rest ++ others) rest + 1 := by
  rw [width, reach, stays, if_neg Bool.false_ne_true, reach_add, width]

/-- Whether a construct, and what remains open of it, goes on behind a line end. -/
def Enclosure.spansLines : Enclosure → Bool
  | .skip | .raw _ _ | .hole _ | .comment => true
  | .quoted verbatim _ => verbatim
  | .opening _ _ | .character => false

theorem Enclosure.endsBefore_of_spansLines {enclosure : Enclosure}
    (spans : enclosure.spansLines = true) (byte : UInt8) :
    enclosure.endsBefore byte = false := by
  cases enclosure with
  | quoted verbatim interpolated =>
      rw [spansLines] at spans
      rw [endsBefore, spans]
      rfl
  | opening | character => cases spans
  | skip | raw | hole | comment => rfl

theorem Enclosure.spansLines_advance {enclosure : Enclosure}
    (spans : enclosure.spansLines = true) (byte : UInt8) (rest : Text) :
    ∀ last ∈ (enclosure.advance byte rest).getLast?, last.spansLines = true := by
  cases enclosure with
  | opening | character => cases spans
  | skip => simp [advance]
  | quoted verbatim interpolated =>
      simp only [advance]
      repeat' split
      all_goals simp_all
  | raw quotes run =>
      simp only [advance]
      repeat' split
      all_goals simp [spansLines]
  | hole depth =>
      simp only [advance]
      repeat' split
      all_goals simp [spansLines]
  | comment =>
      simp only [advance]
      split
      all_goals simp [spansLines]

/-- Constructs inside of others: they go on behind a line end, or they are in code,
which takes a line end that cuts off a literal. -/
inductive Nests (inner outer : List Enclosure) : Prop where
  | lines (spans : ∀ last ∈ inner.getLast?, last.spansLines = true)
  | code (depth : Nat) (more : List Enclosure) (is : outer = .hole depth :: more)

theorem Nests.tail {first : Enclosure} (nests : Nests (first :: inner) outer)
    (present : inner ≠ []) :
    Nests inner outer := by
  cases nests with
  | lines spans => exact .lines (by rwa [List.getLast?_cons_of_ne_nil present] at spans)
  | code depth more is => exact .code depth more is

theorem Nests.advance {first : Enclosure} (nests : Nests (first :: inner) outer)
    (byte : UInt8) (rest : Text) : Nests (first.advance byte rest ++ inner) outer := by
  cases nests with
  | code depth more is => exact .code depth more is
  | lines spans =>
      refine .lines fun last member => ?_
      by_cases empty : inner = []
      · subst empty
        rw [List.append_nil] at member
        exact Enclosure.spansLines_advance (spans first rfl) byte rest last member
      · rw [List.getLast?_append_of_ne_nil _ empty] at member
        exact spans last (by rwa [List.getLast?_cons_of_ne_nil empty])

theorem reach_hole_lineEnd {byte : UInt8} (ends : Byte.isLineEnd byte = true)
    (depth : Nat) (outer : List Enclosure) (rest : Text) (position : Nat) :
    reach (.hole depth :: outer) (byte :: rest) position
      = reach (.hole depth :: outer) rest (position + 1) := by
  simp only [Byte.isLineEnd, Bool.or_eq_true, beq_iff_eq] at ends
  rcases ends with rfl | rfl
  · rfl
  · rfl

/-- What is inside of a construct is scanned as on its own, and the scan goes on where
it ends. -/
theorem reach_append (nests : Nests inner outer) (text : Text) (position : Nat) :
    reach (inner ++ outer) text position
      = reach outer (text.drop (width inner text)) (position + width inner text) := by
  induction text generalizing inner position with
  | nil => rw [width, reach_nil, reach_nil, List.drop_nil, reach_nil, Nat.add_zero]
  | cons byte rest ih =>
      cases inner with
      | nil => simp [width, reach]
      | cons first others =>
          cases ends : first.endsBefore byte with
          | false =>
              have later := ih (nests.advance byte rest) (position + 1)
              rw [List.append_assoc] at later
              rw [width_cons ends, List.drop_succ_cons, List.cons_append, reach, ends,
                if_neg Bool.false_ne_true, later, Nat.add_right_comm, Nat.add_assoc]
          | true =>
              have cut : width (first :: others) (byte :: rest)
                  = if others.isEmpty then 0 else width others rest + 1 := by
                rw [width, reach, ends, if_pos rfl, reach_add, width]
              by_cases empty : others = []
              · -- The line end is in front of what remains: only code is around the
                -- literal here.
                subst empty
                rw [cut, List.isEmpty_nil, if_pos rfl, List.drop_zero, Nat.add_zero]
                cases nests with
                | lines spans =>
                    rw [Enclosure.endsBefore_of_spansLines (spans first rfl)] at ends
                    cases ends
                | code depth more is =>
                    have line : Byte.isLineEnd byte = true := by
                      cases first <;> simp_all [Enclosure.endsBefore]
                    rw [is, reach_hole_lineEnd line, List.cons_append, reach, ends,
                      if_pos rfl, if_neg (by simp), List.nil_append]
              · have nonempty : (others ++ outer).isEmpty = false := by simp [empty]
                rw [cut, if_neg (by simpa using empty), List.drop_succ_cons,
                  List.cons_append, reach, ends, if_pos rfl, nonempty,
                  if_neg Bool.false_ne_true, ih (nests.tail empty), Nat.add_right_comm,
                  Nat.add_assoc]

end Literal

namespace Token

/-- No scan of a text reaches past its end, a scan that is not cut off moves on, and a
scan inside of another one hands over where it ends. -/
structure WithinText (text : Text) : Prop where
  line : lineWidth text ≤ text.length
  number : numberWidth text ≤ text.length
  identifier : ∀ covered, identifierWidth covered text ≤ text.length
  character : ∀ lead, (Utf8.read lead text).2 ≤ text.length
  punctuation : ∀ lead, punctuationWidth lead text ≤ text.length
  token : ∀ lineStart byte, (first lineStart byte text).2 ≤ text.length
  literal : ∀ enclosures, Literal.width enclosures text ≤ text.length
  moves : ∀ first others byte rest, text = byte :: rest →
    first.endsBefore byte = false →
    0 < Literal.width (first :: others) text
  nested : ∀ inner outer, Literal.Nests inner outer → ∀ position,
    Literal.reach (inner ++ outer) text position
      = Literal.reach outer (text.drop (Literal.width inner text))
        (position + Literal.width inner text)

theorem withinText (text : Text) : WithinText text where
  line := lineWidth_le text
  number := numberWidth_le text
  identifier covered := identifierWidth_le covered text
  character lead := Utf8.read_width_le lead text
  punctuation lead := punctuationWidth_le lead text
  token lineStart byte := (first_reads lineStart byte text).width_le
  literal enclosures := Literal.width_le enclosures text
  moves first others byte rest all stays := by
    rw [all]
    exact Literal.lt_reach stays 0
  nested _ _ nests position := Literal.reach_append nests text position

/-- Tokens lie side by side from the start of a text to its end, each a piece of the
text. -/
structure Tiles (source : Text) (tokens : List Token) : Prop where
  nonempty : ∀ token ∈ tokens, token.text ≠ []
  within : ∀ token ∈ tokens, token.stop ≤ source.length
  piece : ∀ token ∈ tokens, textBetween source token token = token.text
  start : ∀ token ∈ tokens.head?, token.offset = 0
  next : tokens.IsChain fun left right => right.offset = left.stop
  stop : ∀ token ∈ tokens.getLast?, token.stop = source.length
  joined : joined tokens = source
  count : tokens.length ≤ source.length

/-- A token starts where the tokens in front of it end. -/
theorem offset_of_lex {source : Text} {before after : List Token} {token : Token}
    (all : lex source = before ++ token :: after) :
    token.offset = (joined before).length := by
  have placed := place_lexFrom true 0 0 source
  rw [← lex, all, place_append, place] at placed
  have same := (List.append_inj placed (length_place 0 before)).2
  rw [← (List.cons.inj same).1, Nat.zero_add]

/-- A token stops where the tokens up to it end. -/
theorem stop_of_lex {source : Text} {before after : List Token} {token : Token}
    (all : lex source = before ++ token :: after) :
    token.stop = (joined (before ++ [token])).length := by
  rw [stop, offset_of_lex all, joined_append, joined_cons, joined_nil, List.append_nil,
    List.length_append]

theorem text_ne_nil_of_mem_lex {source : Text} {token : Token}
    (member : token ∈ lex source) :
    token.text ≠ [] :=
  (run_lexFrom true 0 source).text_ne_nil token member

theorem length_le_joined {tokens : List Token}
    (nonempty : ∀ token ∈ tokens, token.text ≠ []) :
    tokens.length ≤ (joined tokens).length := by
  induction tokens with
  | nil => exact Nat.le_refl 0
  | cons token tokens ih =>
      rw [List.forall_mem_cons] at nonempty
      have positive := List.length_pos_of_ne_nil nonempty.1
      have others := ih nonempty.2
      rw [joined_cons, List.length_append, List.length_cons]
      omega

/-- Lexing is total and loses nothing: the tokens of a text cover it piece by piece, and
no scan reaches past the end of what it is given. -/
theorem tiles_lex (source : Text) :
    Tiles source (lex source) ∧ ∀ text, WithinText text := by
  have slices := lexFrom_slice true 0 [] source rfl
  have nonempty : ∀ token ∈ lex source, token.text ≠ [] :=
    fun token => text_ne_nil_of_mem_lex
  refine ⟨{ nonempty, within := fun token member => (slices token member).1,
            piece := fun token member => (slices token member).2, start :=
              fun token first => ?_,
            next := ?_, stop := fun token last => ?_, joined := joined_lex source,
            count := ?_ }, withinText⟩
  · obtain ⟨after, all⟩ := List.head?_eq_some_iff.mp first
    rw [← List.nil_append (token :: after)] at all
    exact offset_of_lex all
  · refine List.isChain_iff_forall_rel_of_append_cons_cons.mpr
      fun left right before after all => ?_
    rw [stop_of_lex all]
    rw [List.append_cons] at all
    exact offset_of_lex all
  · obtain ⟨before, all⟩ := List.getLast?_eq_some_iff.mp last
    rw [stop_of_lex all, ← all, joined_lex]
  · have bound := length_le_joined nonempty
    rwa [joined_lex] at bound

end Token

end Lineup
