import Mathlib.Data.List.TakeWhile
import Lineup.Proofs.Token.Runs

/-!
# Verbatim literals

In a verbatim literal every quote of the content is written twice, and the literal ends
at the first quote that stands alone. The lexer finds this end unless the content starts
with a quote: then the literal starts with three quotes or more, which open a raw
string. Such a literal is read as a whole only if no run of quotes ends the raw string
too early, and one ends it in time.
-/

namespace Lineup

namespace Literal

/-- The content of a verbatim literal as it is written, with every quote doubled. -/
def doubled (content : Text) : Text :=
  content.flatMap fun byte => if byte == Byte.quote then [byte, byte] else [byte]

/-- The verbatim literal with the given content. -/
def verbatim (content : Text) : Text :=
  Byte.atSign :: Byte.quote :: doubled content ++ [Byte.quote]

@[simp] theorem doubled_nil : doubled [] = [] := rfl

@[simp] theorem doubled_quote (content : Text) :
    doubled (Byte.quote :: content) = Byte.quote :: Byte.quote :: doubled content := rfl

theorem doubled_cons {byte : UInt8} (other : byte ≠ Byte.quote) (content : Text) :
    doubled (byte :: content) = byte :: doubled content := by
  simp [doubled, other]

theorem doubled_replicate (count : Nat) (content : Text) :
    doubled (List.replicate count Byte.quote ++ content)
      = List.replicate (2 * count) Byte.quote ++ doubled content := by
  induction count with
  | zero => rfl
  | succ count ih =>
      rw [List.replicate_succ, List.cons_append, doubled_quote, ih]
      rfl

theorem head?_doubled {content : Text}
    (starts : content = [] ∨ content.head? = some Byte.quote) (rest : Text) :
    (doubled content ++ Byte.quote :: rest).head? = some Byte.quote := by
  cases content with
  | nil => rfl
  | cons byte content =>
      rcases starts with empty | starts
      · cases empty
      · cases starts
        rfl

/-- A verbatim literal ends at the first quote that is not doubled. -/
theorem reach_verbatim {rest : Text} (apart : rest.head? ≠ some Byte.quote)
    (content : Text) (position : Nat) :
    reach [.quoted true false] (doubled content ++ Byte.quote :: rest) position
      = position + (doubled content).length + 1 := by
  induction content generalizing position with
  | nil => simp [reach, Enclosure.endsBefore, Enclosure.advance, apart]
  | cons byte content ih =>
      by_cases quote : byte = Byte.quote
      · subst quote
        have later := ih (position + 1 + 1)
        simp only [doubled_quote, List.cons_append, List.length_cons]
        -- The second quote is passed over.
        change reach [.quoted true false] _ (position + 1 + 1) = _
        omega
      · have later := ih (position + 1)
        rw [doubled_cons quote, List.cons_append, List.length_cons]
        simp only [reach, Enclosure.endsBefore, Enclosure.advance,
          beq_eq_false_iff_ne.mpr quote, Bool.not_true, Bool.and_false, Bool.false_and,
          Bool.false_eq_true, if_false, List.append_nil]
        omega

theorem reach_skip (passed : Text) (outer : List Enclosure) (rest : Text)
    (position : Nat) :
    reach (List.replicate passed.length .skip ++ outer) (passed ++ rest) position
      = reach outer rest (position + passed.length) := by
  induction passed generalizing position with
  | nil => rfl
  | cons byte passed ih =>
      have later := ih (position + 1)
      rw [Nat.add_assoc, Nat.add_comm 1] at later
      exact later

theorem reach_raw_quote (quotes run : Nat) (rest : Text) (position : Nat) :
    reach [.raw quotes run] (Byte.quote :: rest) position
      = if run + 1 < quotes ∨ rest.head? = some Byte.quote then
          reach [.raw quotes (run + 1)] rest (position + 1)
        else position + 1 := by
  simp only [reach, Enclosure.endsBefore, Enclosure.advance, Bool.false_eq_true,
    if_false, beq_self_eq_true, if_true, Bool.or_eq_true, decide_eq_true_eq, beq_iff_eq,
    List.append_nil]
  split
  · rfl
  · rw [reach]

theorem reach_raw_other {byte : UInt8} (other : byte ≠ Byte.quote) (quotes run : Nat)
    (rest : Text) (position : Nat) : reach [.raw quotes run] (byte :: rest) position
      = reach [.raw quotes 0] rest (position + 1) := by
  simp [reach, Enclosure.endsBefore, Enclosure.advance, other]

theorem reach_raw_eq_iff (quotes run : Nat) (rest : Text) (position : Nat) :
    reach [.raw quotes run] rest position = position ↔ rest = [] := by
  cases rest with
  | nil => exact iff_of_true rfl rfl
  | cons byte rest =>
      have moved : position < reach [.raw quotes run] (byte :: rest) position :=
        lt_reach rfl position
      exact iff_of_false (Nat.ne_of_gt moved) (List.cons_ne_nil byte rest)

section Runs

variable {count before : Nat} {byte other : UInt8} {rest : Text}

theorem run_not_starts (short : before ≤ count) (apart : byte ≠ Byte.quote) :
    ¬ List.replicate (count + 1) Byte.quote ++ [other]
      <+: List.replicate before Byte.quote ++ byte :: rest := by
  obtain ⟨more, rfl⟩ := Nat.exists_eq_add_of_le short
  rw [Nat.add_assoc, List.replicate_add, List.append_assoc,
    List.prefix_append_right_inj, List.replicate_succ, List.cons_append,
    List.cons_prefix_cons]
  exact fun starts => apart starts.1.symm

theorem run_infix_iff (short : before ≤ count) (apart : byte ≠ Byte.quote) :
    List.replicate (count + 1) Byte.quote ++ [other]
        <:+: List.replicate before Byte.quote ++ byte :: rest
      ↔ List.replicate (count + 1) Byte.quote ++ [other] <:+: rest := by
  induction before with
  | zero =>
      have first := @run_not_starts count 0 byte other rest (Nat.zero_le _) apart
      exact List.infix_cons_iff.trans (or_iff_right first)
  | succ before ih =>
      have first := @run_not_starts count (before + 1) byte other rest short apart
      exact (List.infix_cons_iff.trans (or_iff_right first)).trans
        (ih (Nat.le_of_succ_le short))

theorem run_suffix_iff (apart : byte ≠ Byte.quote) (front : Text) :
    List.replicate count Byte.quote <:+ front ++ byte :: rest
      ↔ List.replicate count Byte.quote <:+ rest := by
  constructor
  · intro ends
    have missing : ¬ byte :: rest <:+ List.replicate count Byte.quote := by
      intro within
      exact apart (List.eq_of_mem_replicate (within.subset List.mem_cons_self))
    have later :=
      (List.suffix_or_suffix_of_suffix ends (List.suffix_append front _)).resolve_right
        missing
    rcases List.suffix_cons_iff.mp later with whole | later
    · exact absurd (whole ▸ List.suffix_rfl) missing
    · exact later
  · intro ends
    exact ends.trans ((List.suffix_cons byte rest).trans (List.suffix_append front _))

end Runs

/-- Where a raw string ends that is opened by an odd number of quotes, in front of a
verbatim content of which some quotes have been read already: at the end of the literal,
if no run of quotes is too long before, and the last one is long enough or nothing
follows. -/
theorem reach_raw_iff {rest : Text} (apart : rest.head? ≠ some Byte.quote)
    {quotes before : Nat} {content : Text}
    (goesOn : before ≤ quotes ∨ content = [] ∨ content.head? = some Byte.quote)
    (position : Nat) :
    reach [.raw (2 * quotes + 1) (2 * before)] (doubled content ++ Byte.quote :: rest)
      position
        = position + (doubled content).length + 1
      ↔ (∀ byte ≠ Byte.quote, ¬ List.replicate (quotes + 1) Byte.quote ++ [byte]
          <:+: List.replicate before Byte.quote ++ content)
        ∧ (rest = [] ∨ List.replicate quotes Byte.quote
          <:+ List.replicate before Byte.quote ++ content) := by
  induction content generalizing before position with
  | nil =>
      have empty : ∀ byte
          ≠ Byte.quote, ¬ List.replicate (quotes + 1) Byte.quote ++ [byte]
          <:+: List.replicate before Byte.quote ++ [] := by
        intro byte other within
        rw [List.append_nil] at within
        exact other (List.eq_of_mem_replicate (within.subset (by simp)))
      rw [and_iff_right empty, List.append_nil]
      have long : List.replicate quotes Byte.quote <:+ List.replicate before Byte.quote
          ↔ quotes ≤ before := by
        constructor
        · intro ends
          simpa using ends.length_le
        · intro most
          obtain ⟨more, rfl⟩ := Nat.exists_eq_add_of_le' most
          rw [List.replicate_add]
          exact List.suffix_append _ _
      rw [doubled_nil, List.nil_append, List.length_nil, Nat.add_zero, reach_raw_quote,
        long]
      by_cases few : before < quotes
      · rw [if_pos (.inl (by omega)), reach_raw_eq_iff, or_iff_left (by omega)]
      · have ends : ¬ (2 * before + 1 < 2 * quotes + 1
            ∨ rest.head? = some Byte.quote) :=
          not_or.mpr ⟨by omega, apart⟩
        rw [if_neg ends]
        exact iff_of_true rfl (.inr (by omega))
  | cons byte content ih =>
      by_cases quote : byte = Byte.quote
      · subst quote
        -- The second quote goes on, or it ends the string before the byte behind it.
        have pending : List.replicate before Byte.quote ++ Byte.quote :: content
            = List.replicate (before + 1) Byte.quote ++ content := by
          rw [List.replicate_succ', List.append_assoc, List.singleton_append]
        rw [doubled_quote, List.cons_append, List.cons_append, reach_raw_quote,
          if_pos (.inr rfl), reach_raw_quote, pending]
        by_cases more : before + 1 ≤ quotes ∨ content = []
            ∨ content.head? = some Byte.quote
        · have shifted : position
              + (Byte.quote :: Byte.quote :: doubled content).length + 1
              = position + 1 + 1 + (doubled content).length + 1 := by
            simp only [List.length_cons]
            omega
          rw [if_pos (more.imp (by omega) fun starts => head?_doubled starts rest),
            shifted]
          exact ih more (position + 1 + 1)
        · obtain ⟨many, present, other⟩ : quotes ≤ before ∧ content ≠ []
              ∧ content.head? ≠ some Byte.quote := by
            simpa [not_or, Nat.lt_succ_iff] using more
          obtain ⟨next, content, rfl⟩ := List.exists_cons_of_ne_nil present
          have next_ne : next ≠ Byte.quote := by simpa using other
          rw [if_neg (not_or.mpr
            ⟨by omega, by simpa [doubled_cons next_ne] using next_ne⟩)]
          refine iff_of_false (by simp only [List.length_cons]; omega) fun ends => ?_
          refine ends.1 next next_ne ?_
          obtain ⟨extra, rfl⟩ := Nat.exists_eq_add_of_le' many
          rw [Nat.add_assoc, List.replicate_add extra]
          exact ⟨List.replicate extra Byte.quote, content,
            by simp only [List.append_assoc, List.singleton_append]⟩
      · have few : before ≤ quotes := goesOn.resolve_right (by simp [quote])
        have shifted : position + (byte :: doubled content).length + 1
            = position + 1 + (doubled content).length + 1 := by
          simp only [List.length_cons]
          omega
        simp only [run_infix_iff few quote, run_suffix_iff quote]
        rw [doubled_cons quote, List.cons_append, reach_raw_other quote, shifted]
        exact @ih 0 (.inl (Nat.zero_le _)) (position + 1)

/-- Read as a raw string, the literal with the given content ends where it should: no
run of quotes within the content is longer than the one that it starts with, and either
nothing follows or the content ends with a run that is not shorter. -/
structure EndsAsRaw (content rest : Text) : Prop where
  within : ∀ byte ≠ Byte.quote,
    ¬ List.replicate ((content.takeWhile (· == Byte.quote)).length + 1) Byte.quote
      ++ [byte]
      <:+: content.dropWhile (· == Byte.quote)
  ends : rest = [] ∨ List.replicate (content.takeWhile (· == Byte.quote)).length
    Byte.quote
    <:+ content.dropWhile (· == Byte.quote)

theorem exists_quotes (content : Text) : ∃ quotes body, body.head? ≠ some Byte.quote
    ∧ content = List.replicate quotes Byte.quote ++ body := by
  induction content with
  | nil => exact ⟨0, [], by simp, rfl⟩
  | cons byte content ih =>
      by_cases quote : byte = Byte.quote
      · obtain ⟨quotes, body, starts, spelled⟩ := ih
        refine ⟨quotes + 1, body, starts, ?_⟩
        rw [quote, spelled, List.replicate_succ, List.cons_append]
      · exact ⟨0, byte :: content, by simpa using quote, rfl⟩

section Quotes

variable {quotes : Nat} {body : Text} (starts : body.head? ≠ some Byte.quote)

include starts

theorem takeWhile_quotes :
    (List.replicate quotes Byte.quote ++ body).takeWhile (· == Byte.quote)
    = List.replicate quotes Byte.quote := by
  rw [List.takeWhile_append_of_pos fun byte member =>
    beq_iff_eq.mpr (List.eq_of_mem_replicate member)]
  cases body with
  | nil => exact List.append_nil _
  | cons byte body =>
      have other : (byte == Byte.quote) = false := by simpa using starts
      rw [List.takeWhile_cons, other, if_neg Bool.false_ne_true, List.append_nil]

theorem dropWhile_quotes :
    (List.replicate quotes Byte.quote ++ body).dropWhile (· == Byte.quote) = body := by
  have parted := @List.takeWhile_append_dropWhile _ (· == Byte.quote)
    (List.replicate quotes Byte.quote ++ body)
  rw [takeWhile_quotes starts] at parted
  exact List.append_cancel_left parted

theorem endsAsRaw_iff (rest : Text) :
    EndsAsRaw (List.replicate quotes Byte.quote ++ body) rest
      ↔ (∀ byte ≠ Byte.quote,
        ¬ List.replicate (quotes + 1) Byte.quote ++ [byte] <:+: body)
        ∧ (rest = [] ∨ List.replicate quotes Byte.quote <:+ body) := by
  have fields (content : Text) : EndsAsRaw content rest ↔ _ ∧ _ :=
    ⟨fun raw => ⟨raw.within, raw.ends⟩, fun raw => ⟨raw.1, raw.2⟩⟩
  rw [fields, takeWhile_quotes starts, dropWhile_quotes starts, List.length_replicate]

theorem reach_openQuote (many : 2 ≤ quotes) (position : Nat) :
    reach (openQuote true false (List.replicate quotes Byte.quote ++ body))
        (List.replicate quotes Byte.quote ++ body) position
      = reach [.raw (quotes + 1) 0] body (position + quotes) := by
  have passed := reach_skip (List.replicate quotes Byte.quote)
    [.raw (quotes + 1) 0] body position
  rw [List.length_replicate] at passed
  rw [openQuote, takeWhile_quotes starts, List.length_replicate,
    if_neg (Nat.not_lt.mpr many), passed]

end Quotes

/-- A quote in front of a content that does not start with one opens a string that ends
at the next quote. -/
theorem openQuote_single {verbatim interpolated : Bool} {content rest : Text}
    (starts : content.head? ≠ some Byte.quote) (apart : rest.head? ≠ some Byte.quote) :
    openQuote verbatim interpolated (content ++ Byte.quote :: rest)
      = [.quoted verbatim interpolated] := by
  have few : ((content ++ Byte.quote :: rest).takeWhile (· == Byte.quote)).length
      < 2 := by
    cases content with
    | nil =>
        have single := @takeWhile_quotes 1 rest apart
        rw [List.replicate_one, List.singleton_append] at single
        rw [List.nil_append, single]
        exact Nat.one_lt_two
    | cons byte content =>
        have other : byte ≠ Byte.quote := by simpa using starts
        simp [other]
  exact if_pos few

theorem openQuote_plain {content rest : Text} (plain : content.head? ≠ some Byte.quote)
    (apart : rest.head? ≠ some Byte.quote) :
    openQuote true false (doubled content ++ Byte.quote :: rest)
      = [.quoted true false] := by
  refine openQuote_single ?_ apart
  cases content with
  | nil => exact nofun
  | cons byte content =>
      have other : byte ≠ Byte.quote := by simpa using plain
      simpa [doubled_cons other] using other

theorem width_verbatim_iff {content rest : Text}
    (apart : rest.head? ≠ some Byte.quote) :
    width [.opening true false] (Byte.quote :: doubled content ++ Byte.quote :: rest)
        = (doubled content).length + 2
      ↔ (content.head? = some Byte.quote → EndsAsRaw content rest) := by
  change reach (openQuote true false (doubled content ++ Byte.quote :: rest) ++ [])
    (doubled content ++ Byte.quote :: rest) 1 = _ ↔ _
  rw [List.append_nil]
  by_cases plain : content.head? = some Byte.quote
  · rw [forall_prop_of_true plain]
    obtain ⟨quotes, body, starts, rfl⟩ := exists_quotes content
    have present : 1 ≤ quotes := by
      by_contra empty
      obtain rfl : quotes = 0 := by omega
      exact starts plain
    rw [endsAsRaw_iff starts, doubled_replicate, List.append_assoc, List.length_append,
      List.length_replicate]
    cases body with
    | nil =>
        -- All quotes of the literal open a raw string.
        have spelled : List.replicate (2 * quotes) Byte.quote
            ++ (doubled [] ++ Byte.quote :: rest)
            = List.replicate (2 * quotes + 1) Byte.quote ++ rest := by
          rw [List.replicate_succ', List.append_assoc]
          rfl
        have size : 2 * quotes + (doubled []).length + 2 = 1 + (2 * quotes + 1) := by
          rw [doubled_nil, List.length_nil]
          omega
        rw [spelled, reach_openQuote apart (by omega), size, reach_raw_eq_iff]
        have short : ¬ List.replicate quotes Byte.quote <:+ [] := by
          rw [List.suffix_nil, List.replicate_eq_nil_iff]
          omega
        rw [or_iff_left short, and_iff_right]
        intro byte _ within
        simp at within
    | cons byte body =>
        have other : byte ≠ Byte.quote := by simpa using starts
        have behind : (doubled (byte :: body) ++ Byte.quote :: rest).head?
            ≠ some Byte.quote := by
          rw [doubled_cons other]
          exact starts
        have size : 2 * quotes + (doubled (byte :: body)).length + 2
            = 1 + 2 * quotes + (doubled (byte :: body)).length + 1 := by omega
        rw [reach_openQuote behind (by omega), size]
        exact @reach_raw_iff rest apart quotes 0 (byte :: body) (.inl (Nat.zero_le _)) _
  · rw [openQuote_plain plain apart, reach_verbatim apart]
    exact iff_of_true (by omega) fun starts => absurd starts plain

end Literal

namespace Token

open Literal (verbatim doubled EndsAsRaw)

/-- A verbatim literal in front of anything but a quote is the first token, unless its
content starts with a quote: then it is the first token exactly if it ends as a raw
string. -/
theorem head?_lex_verbatim (content rest : Text)
    (apart : rest.head? ≠ some Byte.quote) :
    (lex (verbatim content ++ rest)).head? = some ⟨.string, verbatim content, 0⟩
      ↔ (content.head? = some Byte.quote → EndsAsRaw content rest) := by
  have behind : Byte.quote :: doubled content ++ Byte.quote :: rest
      = Byte.quote :: doubled content ++ [Byte.quote] ++ rest := by
    rw [List.append_assoc, List.singleton_append]
  have size : (Byte.quote :: doubled content ++ [Byte.quote]).length
      = (doubled content).length + 2 := by
    rw [List.length_append, List.length_cons, List.length_singleton]
  have reads : Reads true Byte.atSign
      (Byte.quote :: doubled content ++ Byte.quote :: rest) .string _ :=
    .verbatim rfl ⟨.inl rfl, rfl⟩
  have inside := reads.width_le
  have spelled : verbatim content ++ rest
      = Byte.atSign :: (Byte.quote :: doubled content ++ Byte.quote :: rest) := by
    rw [behind]
    rfl
  rw [← Literal.width_verbatim_iff apart, spelled, lex, lexFrom_cons reads,
    List.head?_cons]
  constructor
  · intro found
    have texts : Byte.atSign :: List.take _ _
        = Byte.atSign :: (Byte.quote :: doubled content ++ [Byte.quote]) :=
      congrArg Token.text (Option.some.inj found)
    have sizes := congrArg List.length (List.cons.inj texts).2
    rwa [List.length_take, Nat.min_eq_left inside, size] at sizes
  · intro width
    rw [width, ← size, behind, List.take_left]
    rfl

/-- A content with quotes, braces, a backslash and a line end. -/
theorem head?_lex_verbatim_lines :
    let content := utf8 "a\"\"\x7b\\\n\""
    (utf8 ";").head? ≠ some Byte.quote
      ∧ (lex (verbatim content ++ utf8 ";")).head?
        = some ⟨.string, verbatim content, 0⟩ := by
  intro content
  have apart : (utf8 ";").head? ≠ some Byte.quote := by decide
  refine ⟨apart, (head?_lex_verbatim content (utf8 ";") apart).mpr ?_⟩
  intro starts
  exact absurd starts (by decide)

/-- A quote at the front of the content makes the literal take in all that follows. -/
theorem head?_lex_verbatim_quote :
    let content := utf8 "\"a"
    verbatim content = utf8 "@\"\"\"a\""
      ∧ (lex (verbatim content ++ utf8 ";")).head?
        = some ⟨.string, utf8 "@\"\"\"a\";", 0⟩ := by
  decide +kernel

end Token

end Lineup
