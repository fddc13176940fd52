import Lineup.Proofs.Token.Stands

/-!
# Tokens that stand in front of everything

Most tokens that end an item, and the trivia between items, are read in the same way
whatever follows them: blanks, finished comments, brackets and semicolons. Only a line
comment needs its line end. Whether a text starts a line matters for preprocessor lines
only.
-/

namespace Lineup

namespace Literal

theorem reach_finished {enclosures : List Enclosure} {text old : Text} {position : Nat}
    (comments : ∀ enclosure ∈ enclosures, enclosure = .skip ∨ enclosure = .comment)
    (present : old ≠ [])
    (inside : reach enclosures (text ++ old) position = position + text.length)
    (new : Text) :
    reach enclosures (text ++ new) position = position + text.length := by
  induction text generalizing enclosures position with
  | nil =>
      cases enclosures with
      | nil => simp only [reach, List.length_nil, Nat.add_zero]
      | cons inner outer =>
          -- Inside of a comment the scanner would have gone on.
          have stays (byte : UInt8) : inner.endsBefore byte = false := by
            rcases comments inner (by simp) with rfl | rfl <;> rfl
          obtain ⟨byte, rest, rfl⟩ := List.exists_cons_of_ne_nil present
          have moved : position < reach (inner :: outer) (byte :: rest) position :=
            lt_reach (stays byte) position
          simp only [List.nil_append, List.length_nil, Nat.add_zero] at inside
          omega
  | cons byte text ih =>
      cases enclosures with
      | nil =>
          simp only [reach, List.length_cons] at inside
          omega
      | cons inner outer =>
          have outside : ∀ enclosure ∈ outer, enclosure = .skip
              ∨ enclosure = .comment :=
            fun each member => comments each (List.mem_cons_of_mem _ member)
          have shifted : position + (text.length + 1) = position + 1 + text.length := by
            omega
          rw [List.length_cons, shifted] at inside ⊢
          rcases comments inner (by simp) with rfl | rfl
          · exact ih outside inside
          · simp only [List.cons_append, reach, Enclosure.endsBefore, Enclosure.advance,
              Bool.false_eq_true, if_false] at inside ⊢
            cases text with
            | nil =>
                -- The comment cannot end in front of the text and be open before its
                -- last byte.
                obtain ⟨next, rest, rfl⟩ := List.exists_cons_of_ne_nil present
                split at inside
                · have moved : position + 1
                      < reach (.skip :: outer) (next :: rest) (position + 1) :=
                    lt_reach rfl _
                  simp only [List.nil_append, List.length_nil,
                    List.cons_append] at inside
                  omega
                · have moved : position + 1
                      < reach (.comment :: outer) (next :: rest) (position + 1) :=
                    lt_reach rfl _
                  simp only [List.nil_append, List.length_nil,
                    List.cons_append] at inside
                  omega
            | cons next text =>
                have same : (next :: text ++ new).head? = (next :: text ++ old).head? :=
                  rfl
                rw [same]
                split
                · rename_i finished
                  rw [if_pos finished] at inside
                  exact ih (List.forall_mem_cons.mpr ⟨.inl rfl, outside⟩) inside
                · rename_i open_
                  rw [if_neg open_] at inside
                  exact ih (List.forall_mem_cons.mpr ⟨.inr rfl, outside⟩) inside

theorem getLast?_of_reach {text old : Text} {position : Nat}
    (inside : reach [.comment] (text ++ old) position = position + text.length)
    (present : old ≠ []) : text.getLast? = some Byte.slash := by
  obtain ⟨next, rest, rfl⟩ := List.exists_cons_of_ne_nil present
  induction text generalizing position with
  | nil =>
      have moved : position < reach [.comment] (next :: rest) position :=
        lt_reach rfl position
      simp only [List.nil_append, List.length_nil] at inside
      omega
  | cons byte text ih =>
      simp only [List.cons_append, List.length_cons, reach, Enclosure.endsBefore,
        Enclosure.advance, Bool.false_eq_true, if_false, List.append_nil] at inside
      have shifted : position + (text.length + 1) = position + 1 + text.length := by
        omega
      rw [shifted] at inside
      split at inside
      · rename_i finished
        cases text with
        | nil =>
            have moved : position + 1 < reach [.skip] (next :: rest) (position + 1) :=
              lt_reach rfl _
            simp only [List.nil_append, List.length_nil] at inside
            omega
        | cons slash text =>
            simp only [Bool.and_eq_true, List.cons_append, List.head?_cons, beq_iff_eq,
              Option.some.injEq] at finished
            simp only [List.cons_append, List.length_cons, reach, Enclosure.endsBefore,
              Enclosure.advance, Bool.false_eq_true, if_false,
              List.append_nil] at inside
            obtain rfl : text = [] := List.eq_nil_of_length_eq_zero (by omega)
            rw [finished.2]
            rfl
      · have last := ih inside
        cases text with
        | nil => cases last
        | cons second text => rwa [List.getLast?_cons_cons]

end Literal

namespace Token

/-- Whether a text starts a line matters in front of a hash sign only. -/
theorem Reads.anyLineStart {lineStart : Bool} {byte : UInt8} {rest : Text}
    {kind : TokenKind} {width : Nat} (reads : Reads lineStart byte rest kind width)
    (other : byte ≠ Byte.hash) (starts : Bool) : Reads starts byte rest kind width := by
  have same : first starts byte rest = first lineStart byte rest := by
    simp [first, other]
  have found := first_reads starts byte rest
  rwa [same, reads.first_eq] at found

/-- A byte that starts no other token and no pair is a punctuation token of its own. -/
theorem reads_single {lineStart : Bool} {byte : UInt8} {rest : Text}
    (alone : ∀ pair ∈ pairs, pair.head? ≠ some byte) (ascii : byte < 0x80)
    (other : Letter.startsIdentifier (Char.ofNat byte.toNat) = false)
    (plain : first lineStart byte rest =
      if Letter.startsIdentifier (Utf8.read byte rest).1 then
        (.identifier, identifierWidth (Utf8.read byte rest).2 rest)
      else (.punctuation, punctuationWidth byte rest)) :
    Reads lineStart byte rest .punctuation 0 := by
  have missing : pairs.contains (byte :: rest.take 1) = false := by
    rw [List.contains_eq_mem, decide_eq_false_iff_not]
    intro member
    exact alone _ member rfl
  have found := first_reads lineStart byte rest
  rwa [plain, Utf8.read_ascii ascii, other, if_neg Bool.false_ne_true, punctuationWidth,
    missing, if_neg Bool.false_ne_true, Utf8.read_ascii ascii] at found

theorem reads_hash (rest : Text) : Reads false Byte.hash rest .punctuation 0 :=
  reads_single (by decide +kernel) (by decide) (by decide +kernel) rfl

/-- The brackets and the semicolon, which are tokens of their own wherever they
stand. -/
def isBracket (token : Token) : Bool :=
  token.isAny [";", openBrace, closeBrace, "]"]

/-- Brackets and semicolons are read in front of everything. -/
theorem isBracket.spec {token : Token} (bracket : token.isBracket = true) :
    ∃ byte, token.text = [byte] ∧ Byte.isDecisive byte = true
      ∧ ∀ lineStart rest, Reads lineStart byte rest .punctuation 0 := by
  simp only [isBracket, isAny, List.any_cons, List.any_nil, Bool.or_false,
    Bool.or_eq_true, is, Bool.and_eq_true, beq_iff_eq] at bracket
  have single {byte : UInt8} (alone : ∀ pair ∈ pairs, pair.head? ≠ some byte)
      (ascii : byte < 0x80)
      (other : Letter.startsIdentifier (Char.ofNat byte.toNat) = false)
      (plain : ∀ lineStart rest, first lineStart byte rest = _) (lineStart : Bool)
        (rest : Text) :
      Reads lineStart byte rest .punctuation 0 :=
    reads_single alone ascii other (plain lineStart rest)
  rcases bracket with ⟨-, text⟩ | ⟨-, text⟩ | ⟨-, text⟩ | ⟨-, text⟩
  · refine ⟨0x3b, text, rfl,
      single (by decide +kernel) (by decide) (by decide +kernel) fun _ _ => rfl⟩
  · refine ⟨_, text, rfl,
      single (by decide +kernel) (by decide) (by decide +kernel) fun _ _ => rfl⟩
  · refine ⟨_, text, rfl,
      single (by decide +kernel) (by decide) (by decide +kernel) fun _ _ => rfl⟩
  · refine ⟨_, text, rfl,
      single (by decide +kernel) (by decide) (by decide +kernel) fun _ _ => rfl⟩

theorem IsRead.bracket {lineStart : Bool} {token : Token} {old : Text}
    (read : IsRead lineStart token old) (bracket : token.isBracket = true)
    (starts : Bool) (new : Text) : IsRead starts token new := by
  obtain ⟨byte, text, -, reads⟩ := isBracket.spec bracket
  refine .intro text ?_
  cases read with
  | intro spelled found =>
      rw [text] at spelled
      cases spelled
      have same := found.first_eq.symm.trans (reads lineStart _).first_eq
      rw [(Prod.mk.inj same).1]
      exact reads starts _

theorem isBlank_of_significant {token : Token} (starts : token.isTrivia = false) :
    token.kind.isBlank = false := by
  cases kind : token.kind <;> simp_all [isTrivia, TokenKind.isTrivia, TokenKind.isBlank]

theorem startsLine_of_significant {token : Token} (starts : token.isTrivia = false)
    (lineStart : Bool) : startsLine lineStart token.kind = false := by
  cases kind : token.kind <;> simp_all [isTrivia, TokenKind.isTrivia, startsLine]

theorem isBracket.isTrivia_eq {token : Token} (bracket : token.isBracket = true) :
    token.isTrivia = false := by
  simp only [isBracket, isAny, List.any_eq_true, is, Bool.and_eq_true,
    Bool.not_eq_true'] at bracket
  obtain ⟨-, -, solid, -⟩ := bracket
  exact solid

theorem isBracket.isBlank_eq {token : Token} (bracket : token.isBracket = true) :
    token.kind.isBlank = false :=
  isBlank_of_significant (isBracket.isTrivia_eq bracket)

theorem lineStartAfter_bracket {tokens : List Token} {final : Token}
    (bracket : final.isBracket = true) (lineStart : Bool) :
    lineStartAfter lineStart (tokens ++ [final]) = false := by
  rw [lineStartAfter_append, lineStartAfter_cons, lineStartAfter_nil]
  exact startsLine_of_significant (isBracket.isTrivia_eq bracket) _

theorem Holds.isRead {lineStart : Bool} {token : Token} {behind : Text}
    (holds : Holds lineStart token behind) (solid : token.kind.isBlank = false) :
    IsRead lineStart token behind := by
  cases holds with
  | space is => simp [is, TokenKind.isBlank] at solid
  | newline is => simp [is, TokenKind.isBlank] at solid
  | read _ read => exact read

/-- Tokens that end with a bracket or a semicolon stand in front of everything. -/
theorem Stands.bracket {lineStart : Bool} {tokens : List Token} {final : Token}
    {old : Text} (stands : Stands lineStart (tokens ++ [final]) old)
    (bracket : final.isBracket = true) (new : Text) :
    Stands lineStart (tokens ++ [final]) new := by
  obtain ⟨before, last, -⟩ := stands_append.mp stands
  obtain ⟨byte, text, decisive, -⟩ := isBracket.spec bracket
  simp only [joined_cons, joined_nil, List.append_nil, List.nil_append,
    text] at before last
  refine stands_append.mpr ⟨?_, ?_, trivial⟩
  · simp only [joined_cons, joined_nil, List.append_nil, text]
    exact before.cut (.same [] decisive old new)
  · exact .read (isBracket.isBlank_eq bracket)
      ((last.isRead (isBracket.isBlank_eq bracket)).bracket bracket _ _)

/-- Blanks among the tokens are made of blanks, all other tokens start with something
else, and none is a hash sign outside of a preprocessor line. -/
def Plain (tokens : List Token) : Prop :=
  ∀ token ∈ tokens, token.is "#" = false ∧ Formed token

theorem Plain.append {tokens others : List Token} (first : Plain tokens)
    (second : Plain others) :
    Plain (tokens ++ others) := by
  intro token member
  rcases List.mem_append.mp member with member | member
  · exact first token member
  · exact second token member

theorem Plain.left {tokens others : List Token} (plain : Plain (tokens ++ others)) :
    Plain tokens :=
  fun token member => plain token (List.mem_append_left _ member)

theorem Plain.right {tokens others : List Token} (plain : Plain (tokens ++ others)) :
    Plain others :=
  fun token member => plain token (List.mem_append_right _ member)

/-- Trivia holds no hash signs of its own. -/
theorem Plain.of_trivia {tokens : List Token}
    (trivia : ∀ token ∈ tokens, token.isTrivia = true)
    (formed : ∀ token ∈ tokens, Formed token) : Plain tokens :=
  fun token member => ⟨by simp [is, trivia token member], formed token member⟩

/-- A token that is no stray hash sign is read at the start of a line wherever it is
read. -/
theorem IsRead.starting {lineStart : Bool} {token : Token} {behind : Text}
    (read : IsRead lineStart token behind) (plain : token.is "#" = false) :
    IsRead true token behind := by
  cases read with
  | @intro byte more spelled reads =>
      by_cases hash : byte = Byte.hash
      · cases lineStart with
        | true => exact .intro spelled reads
        | false =>
            subst hash
            have same := reads.first_eq.symm.trans (reads_hash _).first_eq
            obtain ⟨kind, width⟩ := Prod.mk.inj same
            rw [List.eq_nil_of_length_eq_zero width] at spelled
            have stray : token.is "#" = true := by
              simp only [is, isTrivia, kind, spelled]
              rfl
            rw [plain] at stray
            cases stray
      · exact .intro spelled (reads.anyLineStart hash true)

/-- Tokens without stray hash signs stand at the start of a line wherever they stand. -/
theorem Stands.starting {lineStart : Bool} {tokens : List Token} {behind : Text}
    (stands : Stands lineStart tokens behind) (plain : Plain tokens) :
    Stands true tokens behind := by
  induction tokens generalizing lineStart with
  | nil => trivial
  | cons token rest ih =>
      obtain ⟨holds, later⟩ := stands
      have others := fun each member => plain each (List.mem_cons_of_mem _ member)
      have following := ih later others
      cases holds with
      | space is spaces =>
          refine ⟨.space is spaces, ?_⟩
          rw [is]
          exact following
      | newline is ends =>
          refine ⟨.newline is ends, ?_⟩
          rw [is]
          exact following
      | read solid read =>
          refine ⟨.read solid (read.starting (plain token (by simp)).1), ?_⟩
          cases kind : token.kind with
          | directive => exact following
          | whitespace => simp [kind, TokenKind.isBlank] at solid
          | newline => simp [kind, TokenKind.isBlank] at solid
          | _ => simpa only [kind, startsLine] using later

/-- Whether a text starts a line does not matter for tokens that start with a
significant one. -/
theorem Stands.anyLineStart {lineStart : Bool} {token : Token} {tokens : List Token}
    {behind : Text} (stands : Stands lineStart (token :: tokens) behind)
    (starts : token.isTrivia = false) (plain : token.is "#" = false) (other : Bool) :
    Stands other (token :: tokens) behind := by
  obtain ⟨holds, later⟩ := stands
  have solid := isBlank_of_significant starts
  refine ⟨.read solid ?_, by rwa [startsLine_of_significant starts] at later ⊢⟩
  cases holds.isRead solid with
  | @intro byte more spelled reads =>
      refine .intro spelled (reads.anyLineStart ?_ other)
      rintro rfl
      cases lineStart with
      | true =>
          have same := reads.first_eq.symm.trans (Reads.directive rfl rfl).first_eq
          rw [isTrivia, (Prod.mk.inj same).1] at starts
          cases starts
      | false =>
          have same := reads.first_eq.symm.trans (reads_hash _).first_eq
          obtain ⟨kind, width⟩ := Prod.mk.inj same
          rw [List.eq_nil_of_length_eq_zero width] at spelled
          simp only [is, isTrivia, kind, spelled] at plain
          cases plain

/-- A block comment that something follows is finished. -/
theorem IsRead.blockComment {lineStart : Bool} {token : Token} {old : Text}
    (read : IsRead lineStart token old) (is : token.kind = .blockComment)
    (present : old ≠ []) (starts : Bool) (new : Text) : IsRead starts token new := by
  cases read with
  | @intro byte more spelled reads =>
      rw [is] at reads
      generalize size : more.length = width at reads
      cases reads with
      | blockComment slash next =>
          have comments : ∀ enclosure ∈ [Literal.Enclosure.skip, .comment],
              enclosure = .skip ∨ enclosure = .comment := by simp
          have inside : Literal.reach [.skip, .comment] (more ++ old) 0
              = 0 + more.length := by
            rw [size, Nat.zero_add, Literal.width]
          have width := Literal.reach_finished comments present inside new
          cases more with
          | nil =>
              obtain ⟨first, rest, rfl⟩ := List.exists_cons_of_ne_nil present
              have moved : 0 < Literal.reach [.skip, .comment] (first :: rest) 0 :=
                Literal.lt_reach rfl 0
              simp only [List.nil_append, List.length_nil] at inside
              omega
          | cons star more =>
              refine .intro spelled ?_
              have found : Reads starts byte (star :: more ++ new) _ _ :=
                .blockComment slash next
              rw [Literal.width, width, Nat.zero_add] at found
              rwa [is]

theorem inline_of_lineWidth {text old : Text}
    (size : text.length = lineWidth (text ++ old)) :
    ∀ byte ∈ text, Byte.isLineEnd byte = false := by
  have all := List.prefix_iff_eq_take.mp
    (List.takeWhile_prefix (fun byte => !Byte.isLineEnd byte) (l := text ++ old))
  rw [← lineWidth, ← size, List.take_left] at all
  intro byte member
  rw [← all] at member
  simpa using List.mem_takeWhile_imp (p := fun byte => !Byte.isLineEnd byte) member

/-- A line comment holds no line end, and is followed by a line end or by nothing. -/
theorem IsRead.lineComment {lineStart : Bool} {token : Token} {old : Text}
    (read : IsRead lineStart token old) (is : token.kind = .lineComment) :
    (∀ byte ∈ token.text, Byte.isLineEnd byte = false)
      ∧ (old = [] ∨ ∃ byte rest, old = byte :: rest ∧ Byte.isLineEnd byte = true)
      ∧ ∀ starts byte rest, Byte.isLineEnd byte = true →
        IsRead starts token (byte :: rest) := by
  cases read with
  | @intro byte more spelled reads =>
      rw [is] at reads
      generalize size : more.length = width at reads
      cases reads with
      | lineComment slash next =>
          have inline := inline_of_lineWidth size
          have within : ∀ byte ∈ more, (!Byte.isLineEnd byte) = true := by
            simpa using inline
          have stops : old.takeWhile (fun byte => !Byte.isLineEnd byte) = [] := by
            rw [lineWidth, List.takeWhile_append_of_pos within,
              List.length_append] at size
            exact List.eq_nil_of_length_eq_zero (by omega)
          refine ⟨?_, ?_, ?_⟩
          · rw [spelled, slash]
            exact List.forall_mem_cons.mpr ⟨rfl, inline⟩
          · cases old with
            | nil => exact .inl rfl
            | cons first rest =>
                refine .inr ⟨first, rest, rfl, ?_⟩
                by_contra other
                rw [List.takeWhile_cons_of_pos (by simpa using other)] at stops
                cases stops
          · intro starts first rest ends
            cases more with
            | nil =>
                -- The comment would have only one slash.
                rw [List.nil_append] at next
                cases old with
                | nil => cases next
                | cons second old =>
                    obtain rfl := Option.some.inj next
                    cases stops
            | cons second more =>
                refine .intro spelled ?_
                have found : Reads starts byte (second :: more ++ first :: rest) _ _ :=
                  .lineComment slash next
                rw [lineWidth, List.takeWhile_append_of_pos within,
                  List.takeWhile_cons_of_neg (by simpa using ends),
                  List.append_nil] at found
                rwa [is]

/-- Blanks, line comments and directives do not go beyond their line. -/
theorem IsRead.inline {lineStart : Bool} {token : Token} {behind : Text}
    (read : IsRead lineStart token behind)
    (kind : token.kind = .whitespace ∨ token.kind = .lineComment
      ∨ token.kind = .directive) :
    ∀ byte ∈ token.text, Byte.isLineEnd byte = false := by
  rcases kind with kind | kind | kind
  · intro byte member
    cases read.holds with
    | space is spaces =>
        have space := spaces byte member
        simp only [Byte.isInlineSpace, Bool.or_eq_true, beq_iff_eq] at space
        rcases space with ((rfl | rfl) | rfl) | rfl <;> rfl
    | newline is =>
        rw [kind] at is
        cases is
    | read solid => simp [kind, TokenKind.isBlank] at solid
  · exact (read.lineComment kind).1
  · cases read with
    | @intro byte more spelled reads =>
        rw [kind] at reads
        generalize size : more.length = width at reads
        cases reads with
        | directive hash starts =>
            rw [spelled, hash]
            exact List.forall_mem_cons.mpr ⟨rfl, inline_of_lineWidth size⟩

/-- A block comment that something follows ends with a slash. -/
theorem IsRead.getLast?_blockComment {lineStart : Bool} {token : Token} {behind : Text}
    (read : IsRead lineStart token behind) (is : token.kind = .blockComment)
    (present : behind ≠ []) : token.text.getLast? = some Byte.slash := by
  cases read with
  | @intro first more spelled reads =>
      rw [is] at reads
      generalize size : more.length = width at reads
      cases reads with
      | blockComment slash next =>
          rw [Literal.width] at size
          cases more with
          | nil =>
              obtain ⟨first, rest, rfl⟩ := List.exists_cons_of_ne_nil present
              have moved : 0 < Literal.reach [.skip, .comment] (first :: rest) 0 :=
                Literal.lt_reach rfl 0
              simp only [List.nil_append, List.length_nil] at size
              omega
          | cons star more =>
              have inside : Literal.reach [.comment] (more ++ behind) 1
                  = 1 + more.length := by
                rw [Nat.add_comm]
                exact size.symm
              have ends := Literal.getLast?_of_reach inside present
              rw [spelled, List.getLast?_cons_cons]
              cases more with
              | nil => cases ends
              | cons third more => rwa [List.getLast?_cons_cons]

/-- A comment or a blank that something follows does not end with a line end. -/
theorem IsRead.getLast? {lineStart : Bool} {token : Token} {behind : Text}
    (read : IsRead lineStart token behind) (ignored : token.isTrivia = true)
    (plain : token.kind ≠ .directive) (inline : token.kind ≠ .newline)
    (present : behind ≠ []) :
    ∀ byte ∈ token.text.getLast?, Byte.isLineEnd byte = false := by
  intro byte last
  cases kind : token.kind with
  | directive => exact absurd kind plain
  | newline => exact absurd kind inline
  | whitespace => exact read.inline (.inl kind) byte (List.mem_of_getLast? last)
  | lineComment => exact read.inline (.inr (.inl kind)) byte (List.mem_of_getLast? last)
  | blockComment =>
      rw [read.getLast?_blockComment kind present] at last
      cases last
      rfl
  | _ => simp [isTrivia, kind, TokenKind.isTrivia] at ignored

/-- The token behind a line comment is its line end. -/
theorem IsRead.isBlank_of_lineComment {lineStart starts : Bool} {token next : Token}
    {behind more : Text} (read : IsRead lineStart token (next.text ++ more))
    (is : token.kind = .lineComment) (later : IsRead starts next behind) :
    next.kind.isBlank = true := by
  cases later with
  | intro spelled reads =>
      obtain ⟨-, ends, -⟩ := read.lineComment is
      rw [spelled] at ends
      obtain ⟨first, rest, same, line⟩ := ends.resolve_left (by simp)
      obtain ⟨rfl, -⟩ := List.cons.inj same
      rw [reads.isBlank_eq, line, Bool.true_or]

/-- The tokens stand wherever they are put. -/
def Free (tokens : List Token) : Prop :=
  ∀ lineStart behind, Stands lineStart tokens behind

theorem Free.nil : Free [] := fun _ _ => trivial

theorem Free.append {tokens others : List Token} (first : Free tokens)
    (second : Free others) :
    Free (tokens ++ others) := fun _ _ => stands_append.mpr ⟨first _ _, second _ _⟩

/-- Trivia other than preprocessor lines stands wherever it is put, as long as it does
not end with an unfinished comment. -/
theorem Run.free {lineStart : Bool} {tokens : List Token} {behind : Text}
    (run : Run lineStart tokens behind)
    (trivia : ∀ token ∈ tokens, token.isTrivia = true ∧ token.kind ≠ .directive)
    (present : behind ≠ [])
    (closed : ∀ token ∈ tokens.getLast?, token.kind ≠ .lineComment) :
    Free tokens := by
  induction tokens generalizing lineStart with
  | nil => exact .nil
  | cons token rest ih =>
      obtain ⟨read, later⟩ := run
      have following : Free rest := by
        refine ih later (fun each member => trivia each (List.mem_cons_of_mem _ member))
          ?_
        intro last member
        cases rest with
        | nil => cases member
        | cons next rest => exact closed last (by rwa [List.getLast?_cons_cons])
      intro starts text
      refine ⟨?_, following _ _⟩
      obtain ⟨ignored, other⟩ := trivia token (by simp)
      cases kind : token.kind with
      | directive => exact absurd kind other
      | whitespace =>
          cases read.holds with
          | space is spaces => exact .space is spaces
          | newline is ends => exact .newline is ends
          | read solid => simp [kind, TokenKind.isBlank] at solid
      | newline =>
          cases read.holds with
          | space is spaces => exact .space is spaces
          | newline is ends => exact .newline is ends
          | read solid => simp [kind, TokenKind.isBlank] at solid
      | blockComment =>
          exact .read (by rw [kind]; rfl)
            (read.blockComment kind (by simp [present]) _ _)
      | lineComment =>
          obtain ⟨-, ends, before⟩ := read.lineComment kind
          cases rest with
          | nil => exact absurd kind (closed token (by simp))
          | cons next rest =>
              -- The next token starts with the line end.
              obtain ⟨byte, more, spelled⟩ :=
                List.exists_cons_of_ne_nil later.1.text_ne_nil
              simp only [joined_cons, spelled, List.cons_append, reduceCtorEq,
                false_or] at ends ⊢
              obtain ⟨first, tail, same, isEnd⟩ := ends
              obtain ⟨rfl, -⟩ := List.cons.inj same
              exact .read (by rw [kind]; rfl) (before _ _ _ isEnd)
      | _ => simp [isTrivia, kind, TokenKind.isTrivia] at ignored

/-- Tokens that are read in front of every other text once something follows them. -/
def isShut (token : Token) : Bool :=
  token.kind.isBlank || token.kind == .blockComment || token.isBracket

/-- The lexer stops in front of a token that is shut. -/
theorem IsRead.decisive {lineStart : Bool} {token : Token} {behind : Text}
    (read : IsRead lineStart token behind) (shut : token.isShut = true) :
    ∃ byte more, token.text = byte :: more ∧ Byte.isDecisive byte = true := by
  simp only [isShut, Bool.or_eq_true, beq_iff_eq] at shut
  rcases shut with (blank | comment) | bracket
  · cases read with
    | @intro byte more spelled reads =>
        refine ⟨byte, more, spelled, ?_⟩
        rw [reads.isBlank_eq] at blank
        simp only [Byte.isLineEnd, Byte.isInlineSpace, Bool.or_eq_true,
          beq_iff_eq] at blank
        rcases blank with (rfl | rfl) | ((rfl | rfl) | rfl) | rfl <;> rfl
  · cases read with
    | @intro byte more spelled reads =>
        refine ⟨byte, more, spelled, ?_⟩
        rw [comment] at reads
        generalize more.length = width at reads
        cases reads with
        | blockComment slash =>
            rw [slash]
            rfl
  · obtain ⟨byte, text, decisive, -⟩ := isBracket.spec bracket
    exact ⟨byte, [], text, decisive⟩

theorem IsRead.shut {lineStart : Bool} {token : Token} {old : Text}
    (read : IsRead lineStart token old) (shut : token.isShut = true)
    (present : old ≠ []) (starts : Bool) (new : Text) : Holds starts token new := by
  simp only [isShut, Bool.or_eq_true, beq_iff_eq] at shut
  rcases shut with (blank | comment) | bracket
  · cases read.holds with
    | space is spaces => exact .space is spaces
    | newline is ends => exact .newline is ends
    | read solid => rw [blank] at solid; cases solid
  · exact .read (by rw [comment]; rfl) (read.blockComment comment present starts new)
  · exact .read (isBracket.isBlank_eq bracket) (read.bracket bracket starts new)

/-- A run that ends with a token that is shut stands in front of everything, once
something follows it. -/
theorem Run.shut {lineStart : Bool} {tokens : List Token} {final : Token} {old : Text}
    (run : Run lineStart (tokens ++ [final]) old) (shut : final.isShut = true)
    (present : old ≠ []) (new : Text) : Stands lineStart (tokens ++ [final]) new := by
  obtain ⟨before, last, -⟩ := run_append.mp run
  obtain ⟨byte, more, text, decisive⟩ := last.decisive shut
  rw [joined_nil, List.nil_append] at last
  refine stands_append.mpr ⟨?_, last.shut shut present _ _, trivial⟩
  simp only [joined_cons, joined_nil, List.append_nil, text,
    List.cons_append] at before ⊢
  exact before.stands.cut (.same [] decisive _ _)

end Token

end Lineup
