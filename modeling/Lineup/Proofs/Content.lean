import Lineup.Proofs.Seams.Nodes

/-!
# What a rearranged text says

The tokens of a source text that are not blank, with their kinds and texts, are what the
text says. When the lists of a file are rearranged, the tokens stay the same up to their
order, and the new text says what these tokens say exactly when the seams of the lists
hold.
-/

namespace Lineup

open Token (Run Stands Plain Replaces joined content)

theorem Span.isBracket_of_isCloser {token : Token}
    (closes : Span.isCloser token = true) :
    token.isBracket = true := by
  simp only [Span.isCloser, Bool.or_eq_true] at closes
  rcases closes with (is | is) | is <;> simp [Token.isBracket, Token.isAny, is]

namespace Arrange

theorem Ending.leaf {kind : NodeKind} {first : Token}
    {lead core trail after : List Token}
    (ends : Span.Ends (first :: (core ++ (trail ++ after))) (core.length + 1)) :
    Ending kind after ⟨lead, first :: core, first :: core, trail⟩ := by
  generalize size : core.length + 1 = width at ends
  cases ends with
  | text =>
      refine .ended (List.eq_nil_of_length_eq_zero ?_)
      simp only [List.length_cons, List.length_append] at size ⊢
      omega
  | @brace _ token found closing =>
      subst size
      simp only [List.getElem?_cons_succ, List.getElem?_append_right (Nat.le_refl _),
        Nat.sub_self] at found
      obtain ⟨more, next⟩ :=
        List.head?_eq_some_iff.mp (List.head?_eq_getElem?.trans found)
      exact .brace rfl next closing
  | @closer last token found closes =>
      obtain rfl : core.length = last := by omega
      rw [← List.cons_append, List.getElem?_append_left (by simp)] at found
      have final : (first :: core).getLast? = some token := by
        rw [List.getLast?_eq_getElem?, List.length_cons, Nat.add_sub_cancel, found]
      obtain ⟨front, ends⟩ := List.getLast?_eq_some_iff.mp final
      exact .closed (.intro front front ends ends (Span.isBracket_of_isCloser closes))

theorem Ending.block {kind : NodeKind} {scope : Parser.Scope} {final : List Segment}
    {lead core inner closing trail after : List Token}
    (closes : Parser.Closes scope closing trail after final)
    (unbraced : scope.isBraced = false → kind = .namespaceDeclaration) :
    Ending kind after ⟨lead, core ++ closing, inner ++ closing, trail⟩ := by
  rcases closes.ending with ⟨front, last, rfl, bracket⟩ | empty | ⟨plain, empty, trivia⟩
  · exact .closed (.intro (core ++ front) (inner ++ front) (by simp) (by simp) bracket)
  · exact .ended empty
  · exact .file (unbraced plain) empty trivia

end Arrange

namespace Parser

/-- The header of a declaration with a body ends with a bracket. -/
theorem Item.header_bracket {scope inner : Scope} {first : Token}
    {header rest head : List Token} {kind : NodeKind}
    (reads : Item.next scope first (header ++ rest)
      = .block kind head inner (header.length + 1)) :
    ∃ front last, first :: header = front ++ [last] ∧ last.isBracket = true := by
  obtain ⟨front, last, ends, opens⟩ := Item.header_ends reads
  refine ⟨front, last, ends, ?_⟩
  rcases opens with opens | opens <;> simp [Token.isBracket, Token.isAny, opens]

theorem Item.ending {scope : Scope} {first : Token}
    {head lead core trail after : List Token} {kind : NodeKind}
    (reads : Item.next scope first (core ++ (trail ++ after))
      = .leaf kind head (core.length + 1)) :
    Arrange.Ending kind after ⟨lead, first :: core, first :: core, trail⟩ := by
  have fits := Item.next_fits scope first (core ++ (trail ++ after))
  rw [reads] at fits
  cases fits with
  | leaf _ ends => exact .leaf ends

/-- An item of a list is no namespace, and it does not start with a closing brace. -/
theorem Item.listed {scope : Scope} {first : Token} {rest : List Token}
    {kind : NodeKind} (starts : first.isTrivia = false)
    (inside : (scope.isBraced && first.is closeBrace) = false)
    (reads : (Item.next scope first rest).kind = kind)
    (listed : scope = .members ∨ kind = .usingDirective) :
    kind ≠ .namespaceDeclaration ∧ first.is closeBrace = false := by
  rcases listed with rfl | rfl
  · exact ⟨reads ▸ kind_next_members first rest, inside⟩
  · exact ⟨nofun, is_closeBrace_of_directive starts reads⟩

/-- Parsed nodes form a row. -/
theorem Parsed.row {scope : Scope} {nodes : List Node} {tokens rest : List Token}
    (parsed : Parsed scope nodes tokens rest) (options : Options) (source : Text)
    (plain : Plain (tokens ++ rest))
    (run : ∃ lineStart, Run lineStart (tokens ++ rest) []) :
    ∃ groups, Arrange.Group.sources groups = tokens
      ∧ Arrange.Row options source scope rest nodes groups := by
  induction parsed with
  | nil => exact ⟨[], rfl, .nil⟩
  | @leaf scope id kind first head lead core trail tokens rest nodes trivia starts
        inside reads trails others ih =>
      have whole : lead ++ first :: (core ++ (trail ++ tokens)) ++ rest
          = lead ++ first :: (core ++ (trail ++ (tokens ++ rest))) := by simp
      rw [whole] at plain run
      have parted : lead ++ first :: (core ++ (trail ++ (tokens ++ rest)))
          = (lead ++ first :: (core ++ trail)) ++ (tokens ++ rest) := by simp
      obtain ⟨groups, rfl, row⟩ := ih (parted ▸ plain).right (by
        obtain ⟨lineStart, run⟩ := run
        exact ⟨_, (Token.run_append.mp (parted ▸ run)).2⟩)
      refine ⟨⟨lead, first :: core, first :: core, trail⟩ :: groups,
        by simp [Arrange.Group.source],
        .cons (.leaf rfl rfl trivia starts trails plain run) (Item.ending reads)
          (fun listed => ?_) row⟩
      have spec := Item.listed starts inside (congrArg Item.kind reads) listed
      exact ⟨spec.1, by simpa using spec.2⟩
  | @block scope inner id kind first head lead header opening body closing trail tokens
        rest nodes members final trivia starts inside reads opens within closes others
        ihWithin ih =>
      have whole : lead ++ first
          :: (header ++ (opening ++ (body ++ (closing ++ (trail ++ tokens)))))
            ++ rest
          = lead ++ (first :: header
            ++ (opening ++ (body
              ++ (closing ++ (trail ++ (tokens ++ rest)))))) := by simp
      rw [whole] at plain run
      have parted : lead ++ (first :: header
            ++ (opening ++ (body ++ (closing ++ (trail ++ (tokens ++ rest))))))
          = (lead ++ (first :: header ++ (opening ++ (body ++ (closing ++ trail)))))
            ++ (tokens ++ rest) := by
        simp
      obtain ⟨lineStart, run⟩ := run
      have runBody :=
        (Token.run_append.mp (Token.run_append.mp (Token.run_append.mp run).2).2).2
      have plainBody := plain.right.right.right
      obtain ⟨memberGroups, rfl, rowWithin⟩ := ihWithin plainBody ⟨_, runBody⟩
      obtain ⟨groups, rfl, row⟩ := ih (parted ▸ plain).right
        ⟨_, (Token.run_append.mp (parted ▸ run)).2⟩
      obtain ⟨out, lays⟩ :=
        rowWithin.lays plainBody ⟨_, runBody⟩ (AccessLevel.default kind)
      have text := (printAll_body inner members).trans within.printAll
      have ending : Arrange.Ending kind (Arrange.Group.sources groups ++ rest)
          ⟨lead, first :: header ++ (opening ++ Arrange.Group.sources memberGroups)
            ++ closing,
            first :: header ++ (opening ++ out) ++ closing, trail⟩ :=
        .block closes (Item.kind_of_unbraced reads)
      refine ⟨_ :: groups, ?_,
        .cons (.block rfl rfl trivia starts (Item.header_bracket reads) opens text lays
          closes plain ⟨_, run⟩) (by simpa [Node.kind, Node.info] using ending)
        (fun listed => ?_) row⟩
      · simp [Arrange.Group.source]
      · have spec := Item.listed starts inside (congrArg Item.kind reads) listed
        exact ⟨spec.1, by simpa using spec.2⟩

/-- The tokens of a file, rearranged, stand exactly when the seams of its lists hold,
and mark off the same sections when its lists keep them. -/
theorem File.arranged {tokens : List Token} {top : Node} (file : File tokens top)
    (options : Options) (source : Text) (plain : Plain tokens)
    (run : Run true tokens []) :
    ∃ out, (top.reorganize options source).1.print = joined out
      ∧ Token.Repeats (top.sectionsHold options source = true) out tokens ∧ Plain out
      ∧ (top.seamsHold options source [] = true ↔ Stands true out []) := by
  cases file with
  | @intro nodes body tail parsed trivia all =>
      subst all
      obtain ⟨groups, rfl, row⟩ := parsed.row options source plain ⟨true, run⟩
      obtain ⟨out, lays⟩ :=
        row.lays plain ⟨true, run⟩ (AccessLevel.default .compilationUnit)
      have last (behind : Text) : let final := if (joined tail).isEmpty then [] else
            [Segment.text (joined tail)]
          Segment.printAll (Segment.reorganizeAll options source
              (AccessLevel.default .compilationUnit) final).1 = joined tail
            ∧ Segment.seamsHoldAll options source (AccessLevel.default .compilationUnit)
              behind final
              = true := by
        cases empty : (joined tail).isEmpty with
        | true => simp [Segment.reorganizeAll, List.isEmpty_iff.mp empty]
        | false => simp [Segment.reorganizeAll, Segment.reorganize]
      refine ⟨out ++ tail, ?_, ?_, lays.plain.append plain.right, ?_⟩
      · have printedBody := lays.printed
        have printedTail := (last []).1
        simp only [Segment.reorganizeAll_fst] at printedBody printedTail
        simp only [Node.reorganize, Node.print_mk, Segment.reorganizeAll_fst,
          List.map_append, Segment.printAll_append, printedBody, printedTail,
          List.nil_append, List.append_nil, Token.joined_append]
      · apply (lays.repeats.append_right tail).imp
        rw [Node.sectionsHold, Segment.sectionsHoldAll_append, Bool.and_eq_true]
        exact And.left
      · rw [Node.seamsHold, Segment.seamsHoldAll_append, (last []).1, (last []).2,
          Bool.and_true, List.append_nil, lays.seams tail (.refl plain.right)]

/-- The tokens of a file, rearranged, stand exactly when the seams of its lists hold. -/
theorem File.rearranged {tokens : List Token} {top : Node} (file : File tokens top)
    (options : Options) (source : Text) (plain : Plain tokens)
    (run : Run true tokens []) :
    ∃ out, (top.reorganize options source).1.print = joined out
      ∧ (content out).Perm (content tokens) ∧ Plain out
      ∧ (top.seamsHold options source [] = true ↔ Stands true out []) := by
  obtain ⟨out, printed, repeats, formed, decided⟩ :=
    file.arranged options source plain run
  exact ⟨out, printed, repeats.said, formed, decided⟩

end Parser

/-- Tokens that the lexer can read say what their text says exactly when they stand. -/
theorem Token.content_lex_iff {tokens : List Token} (plain : Plain tokens) :
    content (lex (joined tokens)) = content tokens ↔ Stands true tokens [] := by
  constructor
  · exact Stands.of_contentFrom fun token member => (plain token member).2
  · intro stands
    simpa [Token.contentFrom, lex] using stands.contentFrom

/-- Rearranging keeps what a source text says, as long as the seams of its lists hold:
the new text is made of the old tokens in a new order, with other blanks between them,
and these tokens are what is read from it exactly when the seams hold. The source text
has no hash sign outside of preprocessor lines. -/
theorem content_reorganizeText (options : Options) (source : Text)
    (plain : ∀ token ∈ Token.lex source, token.is "#" = false) :
    let out := (reorganizeText options source).1
    let seams := (Tree.parse source).top.seamsHold options source [] = true
    (seams → (content (Token.lex out)).Perm (content (Token.lex source)))
      ∧ ∃ tokens, joined tokens = out ∧ Plain tokens
        ∧ (content tokens).Perm (content (Token.lex source))
        ∧ (seams ↔ content (Token.lex out) = content tokens) := by
  intro out seams
  have run : Run true (Token.lex source) [] := Token.run_lexFrom true 0 source
  have formed : Plain (Token.lex source) := fun token member =>
    ⟨plain token member, run.stands.formed token member⟩
  obtain ⟨tokens, printed, said, formed, decided⟩ :=
    (Parser.parse_file source).rearranged options source formed run
  have text : joined tokens = out := by
    rw [← printed]
    exact (Tree.print_reorganize_parse options source).symm
  have told : seams ↔ content (Token.lex out) = content tokens := by
    rw [← text, Token.content_lex_iff formed]
    exact decided
  refine ⟨?_, tokens, text, formed, said, told⟩
  intro holds
  rw [told.mp holds]
  exact said

/-- In a file with a comment behind a member, all of whose items end their lines, the
seams hold. -/
theorem content_reorganizeText_lines :
    let source := utf8
      "using B;\nusing A;\nclass C \x7b\n  int b; // second\n  int a;\n\x7d\n"
    (∀ token ∈ Token.lex source, token.is "#" = false)
      ∧ (Tree.parse source).top.seamsHold {} source [] = true
      ∧ (content (Token.lex (reorganizeText {} source).1)).Perm
        (content (Token.lex source)) := by
  intro source
  have plain : ∀ token ∈ Token.lex source, token.is "#" = false := by decide +kernel
  have seams : (Tree.parse source).top.seamsHold {} source [] = true := by
    decide +kernel
  exact ⟨plain, seams, (content_reorganizeText {} source plain).1 seams⟩

/-- A closing brace on the line of the last member ends up in the comment behind the
other one. -/
theorem content_reorganizeText_comment :
    let source := utf8 "class C \x7b int b; // x\n int a; \x7d"
    (∀ token ∈ Token.lex source, token.is "#" = false)
      ∧ (Tree.parse source).top.seamsHold {} source [] = false
      ∧ ¬ (content (Token.lex (reorganizeText {} source).1)).Perm
        (content (Token.lex source)) := by
  decide +kernel

end Lineup
