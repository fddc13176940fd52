import Mathlib.Data.List.Chain
import Mathlib.Data.List.Flatten
import Lineup.Proofs.Token.Runs
import Lineup.Trivia

/-!
# Lines of trivia

The relation `Lines` ties lines of trivia to the tokens they are made of. Splitting a
text gives such lines, and lines that are put together are found again by splitting.
Taking blank lines away, or putting complete lines in front, keeps lines in that
relation, so the lines of an item can be read off its trivia again after the trivia was
tidied.
-/

namespace Lineup

/-- The line ends, and the absence of one. -/
def lineEnds : List Text :=
  [[], [Byte.lineFeed], [Byte.carriageReturn], [Byte.carriageReturn, Byte.lineFeed]]

theorem Text.lineEnd_mem (text : Text) : text.lineEnd ∈ lineEnds := by
  simp only [Text.lineEnd]
  split
  · simp [lineEnds]
  split
  · simp [lineEnds]
  split
  · simp [lineEnds]
  · simp [lineEnds]

theorem Text.lineEnd_suffix (text : Text) : text.lineEnd <:+ text := by
  simp only [Text.lineEnd, Text.endsWith, List.isSuffixOf_iff_suffix]
  split
  · assumption
  split
  · assumption
  split
  · assumption
  · exact List.nil_suffix

/-- Taking the line end of a text off and putting it back. -/
theorem Text.dropEnding_lineEnd (text : Text) :
    text.dropEnding text.lineEnd ++ text.lineEnd = text := by
  obtain ⟨start, parted⟩ := text.lineEnd_suffix
  have ends : text.endsWith text.lineEnd = true :=
    List.isSuffixOf_iff_suffix.mpr ⟨start, parted⟩
  have size := congrArg List.length parted
  rw [List.length_append] at size
  rw [Text.dropEnding, if_pos ends, ← size, Nat.add_sub_cancel]
  conv_rhs => rw [← parted]
  congr 1
  rw [← parted, List.take_left' rfl]

namespace TriviaLine

open Token (Run run_append)

theorem joined_append (lines others : List TriviaLine) :
    joined (lines ++ others) = joined lines ++ joined others := List.flatMap_append

/-- The lines that are not blank. -/
def contents (lines : List TriviaLine) : List TriviaLine :=
  lines.filter fun line => !line.isBlank

/-- The lines that tokens are made of: each line but the last one ends with a line end,
and each is read from the start of a line. -/
inductive Lines : List TriviaLine → List Token → Prop where
  | nil : Lines [] []
  | last {tokens : List Token} (present : tokens ≠ [])
      (plain : ∀ token ∈ tokens, token.kind ≠ .newline) (run : Run true tokens []) :
      Lines [ofTokens tokens] tokens
  | cons {tokens others : List Token} {newline : Token} {lines : List TriviaLine}
      (plain : ∀ token ∈ tokens, token.kind ≠ .newline) (is : newline.kind = .newline)
      (run : Run true (tokens ++ [newline]) (Token.joined others))
        (rest : Lines lines others) :
      Lines ((ofTokens tokens).complete newline.text :: lines)
        (tokens ++ newline :: others)

theorem ofTokens_congr {tokens others : List Token}
    (same : tokens.map Token.face = others.map Token.face) :
    ofTokens tokens = ofTokens others := by
  have faces (tokens : List Token) : ofTokens tokens =
      { text := (tokens.map Token.face).flatMap Prod.snd
        hasOnlySpace := (tokens.map Token.face).all fun face => face.1 == .whitespace
        hasDirective := (tokens.map Token.face).any fun face => face.1 == .directive
        isComplete := false } := by
    simp [ofTokens, Token.joined, List.flatMap_map, Token.face, Function.comp_def]
  rw [faces, faces, same]

theorem ofTokensFrom_congr {current present tokens others : List Token}
    (before : current.map Token.face = present.map Token.face)
    (same : tokens.map Token.face = others.map Token.face) :
    ofTokensFrom current tokens = ofTokensFrom present others := by
  induction tokens generalizing current present others with
  | nil =>
      cases others with
      | cons other others => cases same
      | nil =>
          have empty : current.isEmpty = present.isEmpty := by
            have length := congrArg List.length before
            simp only [List.length_map] at length
            cases current <;> cases present <;> simp_all
          simp only [ofTokensFrom, empty, ofTokens_congr before]
  | cons token tokens ih =>
      cases others with
      | nil => cases same
      | cons other others =>
          simp only [List.map_cons, List.cons.injEq] at same
          obtain ⟨face, rest⟩ := same
          have kind : token.kind = other.kind := congrArg Prod.fst face
          have text : token.text = other.text := congrArg Prod.snd face
          simp only [ofTokensFrom, kind, text, ofTokens_congr before]
          split
          · rw [ih rfl rest]
          · exact ih (by simp [before, face]) rest

theorem ofTokensFrom_lines (current tokens : List Token)
    (run : Run true (current ++ tokens) [])
    (plain : ∀ token ∈ current, token.kind ≠ .newline) :
    Lines (ofTokensFrom current tokens) (current ++ tokens) := by
  induction tokens generalizing current with
  | nil =>
      rw [List.append_nil] at run ⊢
      simp only [ofTokensFrom]
      cases current with
      | nil => exact .nil
      | cons token current => exact .last (by simp) plain run
  | cons token tokens ih =>
      simp only [ofTokensFrom]
      split
      · rename_i newline
        have is := eq_of_beq newline
        rw [List.append_cons] at run
        obtain ⟨line, later⟩ := run_append.mp run
        rw [Token.lineStartAfter_newline true current is] at later
        rw [List.append_nil] at line
        exact .cons plain is line (ih [] later (by simp))
      · rename_i other
        have lines := ih (current ++ [token]) (by simpa using run) (by
          intro each member
          rcases List.mem_append.mp member with before | last
          · exact plain each before
          · rw [List.mem_singleton.mp last]
            simpa using other)
        simpa using lines

/-- Splitting a piece of trivia gives the lines of its tokens. -/
theorem lines_split (trivia : Text) : Lines (split trivia) (Token.lex trivia) :=
  ofTokensFrom_lines [] (Token.lex trivia) (Token.run_lexFrom true 0 trivia) (by simp)

theorem ofTokensFrom_append (current : List Token) {tokens : List Token}
    {newline : Token} (plain : ∀ token ∈ tokens, token.kind ≠ .newline)
    (is : newline.kind = .newline) (others : List Token) :
    ofTokensFrom current (tokens ++ newline :: others)
      = (ofTokens (current ++ tokens)).complete newline.text
        :: ofTokensFrom [] others := by
  induction tokens generalizing current with
  | nil => simp [ofTokensFrom, is]
  | cons token tokens ih =>
      have other : token.kind ≠ .newline := plain token (by simp)
      have later := ih (current ++ [token]) fun each member =>
        plain each (List.mem_cons_of_mem _ member)
      simp only [List.cons_append, ofTokensFrom]
      rw [if_neg (by simpa using other), later]
      simp

theorem ofTokensFrom_plain (current : List Token) {tokens : List Token}
    (plain : ∀ token ∈ tokens, token.kind ≠ .newline)
    (present : current ++ tokens ≠ []) :
    ofTokensFrom current tokens = [ofTokens (current ++ tokens)] := by
  induction tokens generalizing current with
  | nil =>
      rw [List.append_nil] at present ⊢
      simp [ofTokensFrom, present]
  | cons token tokens ih =>
      have other : token.kind ≠ .newline := plain token (by simp)
      have later := ih (current ++ [token])
        (fun each member => plain each (List.mem_cons_of_mem _ member)) (by simp)
      simp only [ofTokensFrom]
      rw [if_neg (by simpa using other), later]
      simp

/-- The lines do not start with a blank line. -/
def Starts (lines : List TriviaLine) : Prop :=
  ∀ line ∈ lines.head?, line.isBlank = false

theorem starts_dropBlank (lines : List TriviaLine) : Starts (dropBlank lines) := by
  intro line first
  have test := List.head?_dropWhile_not isBlank lines
  rw [show (lines.dropWhile isBlank).head? = some line from first] at test
  exact test

namespace Lines

variable {lines : List TriviaLine} {tokens : List Token}

theorem ofTokensFrom_eq (made : Lines lines tokens) :
    ofTokensFrom [] tokens = lines := by
  induction made with
  | nil => rfl
  | last present plain => exact ofTokensFrom_plain [] plain present
  | cons plain is run rest ih =>
      rw [ofTokensFrom_append [] plain is, ih, List.nil_append]

theorem joined_eq (made : Lines lines tokens) : joined lines = Token.joined tokens := by
  induction made with
  | nil => rfl
  | last => simp [joined, ofTokens]
  | cons plain is run rest ih =>
      simp only [joined] at ih
      simp [joined, ofTokens, complete, ih]

theorem run (made : Lines lines tokens) : Run true tokens [] := by
  induction made with
  | nil => trivial
  | last present plain run => exact run
  | cons plain is run rest ih =>
      rw [List.append_cons]
      refine run_append.mpr ⟨by rwa [List.append_nil], ?_⟩
      rwa [Token.lineStartAfter_newline true _ is]

/-- Lines that are put together are found again by splitting. -/
theorem split_joined (made : Lines lines tokens) : split (joined lines) = lines := by
  have found := Token.lexFrom_run made.run 0
  rw [List.append_nil, Token.lexFrom_nil, List.append_nil] at found
  rw [split, Token.lex, made.joined_eq, found, ← made.ofTokensFrom_eq]
  exact ofTokensFrom_congr rfl (Token.map_face_place 0 tokens)

theorem tail {line : TriviaLine} (made : Lines (line :: lines) tokens) :
    ∃ others, Lines lines others := by
  cases made with
  | last => exact ⟨[], .nil⟩
  | cons plain is run rest => exact ⟨_, rest⟩

theorem text_ne_nil {line : TriviaLine} (made : Lines (line :: lines) tokens) :
    line.text ≠ [] := by
  cases made with
  | last present plain run =>
      cases tokens with
      | nil => exact absurd rfl present
      | cons token tokens => simp [ofTokens, run.1.text_ne_nil]
  | cons plain is run rest => simp [complete, (run_append.mp run).2.1.text_ne_nil]

theorem isBlank_of_lineFeed {line : TriviaLine} (made : Lines (line :: lines) tokens)
    (starts : line.text.head? = some Byte.lineFeed) : line.isBlank = true := by
  -- The first token of the line would be a line end, so it is the only one.
  have newline {token : Token} {tokens : List Token} {behind more : Text}
      (run : Run true (token :: tokens) behind)
      (found : (token.text ++ more).head? = some Byte.lineFeed) :
        token.kind = .newline := by
    rw [List.head?_append_of_ne_nil _ run.1.text_ne_nil] at found
    exact run.1.kind_of_lineFeed found
  cases made with
  | last present plain run =>
      cases tokens with
      | nil => exact absurd rfl present
      | cons token tokens => exact absurd (newline run starts) (plain token (by simp))
  | @cons tokens others _ _ plain is run rest =>
      cases tokens with
      | nil => rfl
      | cons token tokens =>
          simp only [complete, ofTokens, Token.joined_cons, List.append_assoc] at starts
          exact absurd (newline run starts) (plain token (by simp))

theorem apart_of_cons {line next : TriviaLine}
    (made : Lines (line :: next :: lines) tokens) :
    line.isComplete = true ∧ Token.Apart line.text (joined (next :: lines)) := by
  cases made with
  | @cons _ others newline _ plain is run rest =>
      refine ⟨rfl, ?_⟩
      have read := (run_append.mp run).2.1
      intro ends
      rw [rest.joined_eq]
      simp only [complete] at ends
      rw [List.getLast?_append_of_ne_nil _ read.text_ne_nil] at ends
      rcases read.newline is with text | text | ⟨-, apart⟩
      · rw [text] at ends
        cases ends
      · rw [text] at ends
        cases ends
      · simpa using apart

/-- Other lines can follow a complete line, as long as its line end stands apart from
them. -/
theorem follow {line : TriviaLine} {others : List TriviaLine} {more : List Token}
    (made : Lines (line :: lines) tokens) (complete : line.isComplete = true)
    (later : Lines others more) (apart : Token.Apart line.text (joined others)) :
    ∃ kept, Lines (line :: others) kept := by
  cases made with
  | last => cases complete
  | @cons _ _ newline _ plain is run rest =>
      have read := (run_append.mp run).2.1
      refine ⟨_, .cons plain is (run.restart is fun ends => ?_) later⟩
      rw [← later.joined_eq]
      apply apart
      simp only [TriviaLine.complete]
      rwa [List.getLast?_append_of_ne_nil _ read.text_ne_nil]

theorem head?_joined {line : TriviaLine} (made : Lines (line :: lines) tokens)
    (others : List TriviaLine) : (joined (line :: others)).head? = line.text.head? :=
  List.head?_append_of_ne_nil _ made.text_ne_nil

/-- Lines that do not start with a blank line do not start with a line feed. -/
theorem head?_of_starts (made : Lines lines tokens) (first : Starts lines) :
    (joined lines).head? ≠ some Byte.lineFeed := by
  cases lines with
  | nil => simp [joined]
  | cons line lines =>
      rw [made.head?_joined]
      intro starts
      have blank := made.isBlank_of_lineFeed starts
      rw [first line rfl] at blank
      cases blank

theorem head?_collapseFrom_true (made : Lines lines tokens) :
    (joined (collapseFrom true lines)).head? ≠ some Byte.lineFeed := by
  induction lines generalizing tokens with
  | nil => simp [TriviaLine.collapseFrom, joined]
  | cons line lines ih =>
      obtain ⟨others, rest⟩ := made.tail
      cases blank : line.isBlank with
      | true => simpa [TriviaLine.collapseFrom, blank] using ih rest
      | false =>
          simp only [TriviaLine.collapseFrom, blank, Bool.false_and, Bool.false_eq_true,
            if_false]
          rw [made.head?_joined, ← made.head?_joined lines]
          exact made.head?_of_starts fun each first => by cases first; exact blank

/-- Reducing runs of blank lines keeps lines. -/
theorem collapseFrom (made : Lines lines tokens) (afterBlank : Bool) :
    ∃ kept, Lines (collapseFrom afterBlank lines) kept := by
  induction lines generalizing tokens afterBlank with
  | nil => exact ⟨[], .nil⟩
  | cons line lines ih =>
      obtain ⟨others, rest⟩ := made.tail
      simp only [TriviaLine.collapseFrom]
      split
      · exact ih rest true
      · cases lines with
        | nil => exact ⟨tokens, made⟩
        | cons next lines =>
            obtain ⟨complete, apart⟩ := made.apart_of_cons
            obtain ⟨kept, later⟩ := ih rest line.isBlank
            refine made.follow complete later fun ends => ?_
            cases blank : line.isBlank with
            | true => exact rest.head?_collapseFrom_true
            | false =>
                simp only [TriviaLine.collapseFrom, Bool.and_false, Bool.false_eq_true,
                  if_false]
                rw [rest.head?_joined, ← rest.head?_joined lines]
                exact apart ends

/-- Taking lines away in front keeps lines. -/
theorem suffix {others : List TriviaLine} (made : Lines lines tokens)
    (ending : others <:+ lines) :
    ∃ kept, Lines others kept := by
  induction lines generalizing tokens with
  | nil => exact ⟨tokens, List.suffix_nil.mp ending ▸ made⟩
  | cons line lines ih =>
      rcases List.suffix_cons_iff.mp ending with rfl | later
      · exact ⟨tokens, made⟩
      · obtain ⟨more, rest⟩ := made.tail
        exact ih rest later

theorem dropBlank (made : Lines lines tokens) : ∃ kept, Lines (dropBlank lines) kept :=
  made.suffix (List.dropWhile_suffix isBlank)

theorem head?_dropBlank (made : Lines lines tokens) :
    (joined (TriviaLine.dropBlank lines)).head? ≠ some Byte.lineFeed := by
  obtain ⟨kept, dropped⟩ := made.dropBlank
  exact dropped.head?_of_starts (starts_dropBlank lines)

/-- Complete lines can stand in front of lines that do not start with a line feed. -/
theorem before {header others : List TriviaLine} {more : List Token}
    (made : Lines (header ++ lines) tokens)
    (complete : ∀ line ∈ header, line.isComplete = true) (later : Lines others more)
    (starts : (joined others).head? ≠ some Byte.lineFeed) :
    ∃ kept, Lines (header ++ others) kept := by
  induction header generalizing tokens with
  | nil => exact ⟨more, later⟩
  | cons line header ih =>
      obtain ⟨behind, rest⟩ := made.tail
      obtain ⟨kept, all⟩ :=
        ih rest fun each member => complete each (List.mem_cons_of_mem _ member)
      refine made.follow (complete line (by simp)) all fun ends => ?_
      cases header with
      | nil => exact starts
      | cons next header =>
          have rest : Lines (next :: (header ++ lines)) behind := rest
          change (joined (next :: (header ++ others))).head? ≠ _
          rw [rest.head?_joined, ← rest.head?_joined (header ++ lines)]
          exact (made.apart_of_cons).2 ends

theorem header_complete (made : Lines lines tokens) :
    ∀ line ∈ lines.take (headerLength lines), line.isComplete = true := by
  induction lines generalizing tokens with
  | nil => simp
  | cons first lines ih =>
      obtain ⟨others, rest⟩ := made.tail
      intro line member
      cases length : headerLength lines with
      | zero =>
          simp only [headerLength, length] at member
          split at member
          · rename_i divider
            obtain rfl : line = first := by simpa using member
            simp only [isDivider, Bool.and_eq_true] at divider
            exact divider.1
          · simp at member
      | succ more =>
          simp only [headerLength, length, List.take_succ_cons, List.mem_cons] at member
          rcases member with rfl | member
          · cases lines with
            | nil => cases length
            | cons next lines => exact made.apart_of_cons.1
          · exact ih rest line (by rwa [length])

/-- A line end can be put in front of lines of which none is blank. -/
theorem lineEnd_before {lineEnd : Text} (is : lineEnd ∈ lineEnds)
    (present : lineEnd ≠ []) (made : Lines lines tokens)
    (starts : (joined lines).head? ≠ some Byte.lineFeed) :
    ∃ kept, Lines ((ofTokens []).complete lineEnd :: lines) kept := by
  rw [made.joined_eq] at starts
  have read : Token.IsRead true { kind := .newline, text := lineEnd, offset := 0 }
      (Token.joined tokens) := by
    simp only [lineEnds, List.mem_cons, List.not_mem_nil, or_false] at is
    rcases is with rfl | rfl | rfl | rfl
    · exact absurd rfl present
    · exact .intro rfl (.lineFeed rfl)
    · have reads : Token.Reads true Byte.carriageReturn
          ([] ++ Token.joined tokens) _ _ :=
        .carriageReturn rfl
      rw [if_neg (by simpa using starts)] at reads
      exact .intro rfl reads
    · exact .intro rfl (.carriageReturn rfl)
  have run : Run true ([] ++ [{ kind := .newline, text := lineEnd, offset := 0 }])
      (Token.joined tokens) := ⟨by simpa using read, trivial⟩
  exact ⟨_, Lines.cons (by simp) rfl run made⟩

end Lines

/-- The header of a list and the lines behind it are those of the first item. -/
theorem splitHeader_append (lines : List TriviaLine) :
    (splitHeader lines).1 ++ (splitHeader lines).2 = lines := by
  simp only [splitHeader]
  split
  · rfl
  · exact List.take_append_drop _ _

/-- The header of a list is made of complete lines. -/
theorem Lines.splitHeader_complete {lines : List TriviaLine} {tokens : List Token}
    (made : Lines lines tokens) :
    ∀ line ∈ (splitHeader lines).1, line.isComplete = true := by
  simp only [splitHeader]
  split
  · simp
  · exact made.header_complete

/-- Reducing runs of blank lines leaves all other lines. -/
theorem contents_collapseFrom (afterBlank : Bool) (lines : List TriviaLine) :
    contents (collapseFrom afterBlank lines) = contents lines := by
  induction lines generalizing afterBlank with
  | nil => rfl
  | cons line lines ih =>
      simp only [contents] at ih
      simp only [collapseFrom, contents]
      cases blank : line.isBlank with
      | true =>
          cases afterBlank with
          | true => simp [ih, blank]
          | false => simp [ih, blank]
      | false => simp [ih, blank]

/-- Taking away blank lines in front leaves all other lines. -/
theorem contents_dropBlank (lines : List TriviaLine) :
    contents (dropBlank lines) = contents lines := by
  induction lines with
  | nil => rfl
  | cons line lines ih =>
      simp only [contents, dropBlank] at ih ⊢
      cases blank : line.isBlank with
      | true => simpa [blank] using ih
      | false => simp [blank]

/-- No two blank lines follow each other. -/
def Spaced (lines : List TriviaLine) : Prop :=
  lines.IsChain fun first second => (first.isBlank && second.isBlank) = false

theorem spaced_collapseFrom (afterBlank : Bool) (lines : List TriviaLine) :
    Spaced (collapseFrom afterBlank lines)
      ∧ (afterBlank = true → Starts (collapseFrom afterBlank lines)) := by
  induction lines generalizing afterBlank with
  | nil => exact ⟨.nil, fun _ line first => by cases first⟩
  | cons line lines ih =>
      simp only [collapseFrom]
      split
      · obtain ⟨spaced, starts⟩ := ih true
        exact ⟨spaced, fun _ => starts rfl⟩
      · rename_i kept
        obtain ⟨spaced, starts⟩ := ih line.isBlank
        refine ⟨List.isChain_cons.mpr ⟨fun next first => ?_, spaced⟩, ?_⟩
        · cases blank : line.isBlank with
          | true =>
              rw [blank] at starts first
              exact starts rfl next first
          | false => rfl
        · rintro rfl next first
          cases first
          simpa using kept

theorem spaced_collapse (lines : List TriviaLine) : Spaced (collapse lines) :=
  (spaced_collapseFrom false lines).1

theorem collapseFrom_eq_self {afterBlank : Bool} {lines : List TriviaLine}
    (spaced : Spaced lines) (starts : afterBlank = true → Starts lines) :
    collapseFrom afterBlank lines = lines := by
  induction lines generalizing afterBlank with
  | nil => rfl
  | cons line lines ih =>
      obtain ⟨next, rest⟩ := List.isChain_cons.mp spaced
      have kept : (line.isBlank && afterBlank) = false := by
        cases afterBlank with
        | true => rw [starts rfl line rfl, Bool.false_and]
        | false => exact Bool.and_false _
      have later : collapseFrom line.isBlank lines = lines :=
        ih rest fun blank follower first => by simpa [blank] using next follower first
      rw [collapseFrom, kept, if_neg Bool.false_ne_true, later]

theorem collapse_eq_self {lines : List TriviaLine} (spaced : Spaced lines) :
    collapse lines = lines :=
  collapseFrom_eq_self spaced fun afterBlank => Bool.noConfusion afterBlank

theorem dropBlank_eq_self {lines : List TriviaLine} (starts : Starts lines) :
    dropBlank lines = lines := by
  cases lines with
  | nil => rfl
  | cons line lines => exact List.dropWhile_cons_of_neg (by simp [starts line rfl])

theorem collapseFrom_sublist (afterBlank : Bool) (lines : List TriviaLine) :
    (collapseFrom afterBlank lines).Sublist lines := by
  induction lines generalizing afterBlank with
  | nil => exact .slnil
  | cons line lines ih =>
      simp only [collapseFrom]
      split
      · exact (ih true).cons line
      · exact (ih line.isBlank).cons_cons line

/-- No line can be left out without changing the text. -/
theorem Lines.eq_of_sublist {kept lines : List TriviaLine} {tokens : List Token}
    (made : Lines lines tokens) (part : kept.Sublist lines)
    (same : joined kept = joined lines) :
    kept = lines := by
  induction part generalizing tokens with
  | slnil => rfl
  | @cons kept lines line part _ =>
      have shorter := (part.flatMap TriviaLine.text).length_le
      have length := congrArg List.length same
      have present := List.length_pos_iff.mpr made.text_ne_nil
      simp only [joined, List.flatMap_cons, List.length_append] at shorter length
      omega
  | @cons_cons kept lines line part ih =>
      obtain ⟨others, rest⟩ := made.tail
      rw [ih rest (List.append_cancel_left same)]

end TriviaLine

end Lineup
