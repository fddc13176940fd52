import Lineup.Proofs.Arena
import Lineup.Proofs.Directive.Written
import Lineup.Proofs.Syntax.Ended
import Lineup.Proofs.Syntax.Skeleton

/-!
# Using directives are recovered

A file of using directives, line by line, is read as one list of them. Whether a
directive stands next, where it ends and what it says are found in three separate
readings of its tokens, and all of them agree with the directive as it was written.
-/

namespace Lineup

namespace Token

theorem map_bare_place (offset : Nat) (tokens : List Token) :
    (place offset tokens).map bare = tokens.map bare :=
  map_bare_iff.mpr (map_face_place offset tokens)

theorem significant_place {tokens : List Token}
    (solid : ∀ token ∈ tokens, token.isTrivia = false) (offset : Nat) :
    significant (place offset tokens) = place offset tokens := by
  induction tokens generalizing offset with
  | nil => rfl
  | cons token tokens ih =>
      rw [List.forall_mem_cons] at solid
      have placed : ({ token with offset } : Token).isTrivia = false := solid.1
      rw [place, significant_cons placed, ih solid.2]

theorem eq_place_of_suffix {front tokens others : List Token} {offset : Nat}
    (same : tokens.map bare = others.map bare)
    (within : tokens <:+ front ++ place offset others) :
    tokens = place offset others := by
  have sizes := congrArg List.length same
  rw [List.length_map, List.length_map, ← length_place offset others] at sizes
  have shorter := List.suffix_of_suffix_length_le within (List.suffix_append _ _)
    sizes.le
  exact shorter.eq_of_length sizes

theorem stop_getLast?_place {offset : Nat} {tokens : List Token} :
    ∀ last ∈ (place offset tokens).getLast?,
      last.stop = offset + (joined tokens).length := by
  induction tokens generalizing offset with
  | nil => exact nofun
  | cons token tokens ih =>
      intro last final
      cases tokens with
      | nil =>
          change some { token with offset } = some last at final
          cases final
          simp [stop, joined]
      | cons next tokens =>
          have later := @ih (offset + token.text.length) last
          rw [joined_cons, List.length_append, ← Nat.add_assoc]
          apply later
          simpa [place, List.getLast?_cons_cons] using final

theorem textBetween_place {tokens : List Token} {source before after : Text}
    (parted : source = before ++ (joined tokens ++ after)) {first last : Token}
    (starts : (place before.length tokens).head? = some first)
    (ends : (place before.length tokens).getLast? = some last) :
    textBetween source first last = joined tokens := by
  have start : first.offset = before.length := by
    cases tokens with
    | nil => cases starts
    | cons token tokens =>
        cases starts
        rfl
  rw [textBetween, start, stop_getLast?_place last ends, parted,
    List.take_length_add_append, List.take_left, List.drop_left]

end Token

namespace UsingDirective

open Token (bare gist)

variable (directive : UsingDirective)

/-- What stands between the words `using` and `static` and the semicolon. -/
def subject : List Token :=
  directive.aliasWords ++ directive.path

theorem words_eq : directive.words ++ directive.path
    = (if directive.isGlobal then [keyword "global"] else []) ++ keyword "using"
      :: ((if directive.isStatic then [keyword "static"] else [])
        ++ directive.subject) := by
  simp [words, subject]

theorem mem_subject {token : Token} (member : token ∈ directive.subject) :
    (∃ name : Name, token = name.token) ∨ token = sign Byte.equals
      ∨ token = sign Byte.dot := by
  rw [subject, List.mem_append, aliasWords, path, List.mem_cons,
    List.mem_flatMap] at member
  rcases member with front | rfl | ⟨name, -, part⟩
  · cases given : directive.aliasName with
    | none =>
        rw [given] at front
        cases front
    | some name =>
        rw [given] at front
        rcases List.mem_cons.mp front with rfl | later
        · exact .inl ⟨name, rfl⟩
        · exact .inr (.inl (List.mem_singleton.mp later))
  · exact .inl ⟨directive.first, rfl⟩
  · rcases List.mem_cons.mp part with rfl | later
    · exact .inr (.inr rfl)
    · exact .inl ⟨name, List.mem_singleton.mp later⟩

theorem is_eq_false_of_mem_subject {spelling : String}
    (listed : spelling ∈ [";", openBrace, closeBrace]) :
    ∀ token ∈ directive.subject, token.is spelling = false := by
  have among : spelling ∈ Identifier.signs := by
    revert spelling
    decide
  intro token member
  rcases directive.mem_subject member with ⟨name, rfl⟩ | rfl | rfl
  · exact name.is_eq_false spelling among
  · revert spelling
    decide +kernel
  · revert spelling
    decide +kernel

theorem is_static_eq_false (absent : directive.isStatic = false) :
    ∀ first ∈ directive.subject.head?, first.is "static" = false := by
  intro first starts
  have other := directive.plain absent
  have same : first = (directive.aliasName.getD directive.first).token := by
    rw [subject, aliasWords, path] at starts
    cases given : directive.aliasName with
    | none =>
        rw [given] at starts
        exact (Option.some.inj starts).symm
    | some name =>
        rw [given] at starts
        exact (Option.some.inj starts).symm
  simp [same, Token.is, Name.token, other]

theorem isName_path : Span.isName false directive.path = true := by
  rw [path]
  generalize directive.first = first
  induction directive.rest generalizing first with
  | nil => rfl
  | cons second rest ih =>
      exact ih second

/-! ## Recognition -/

theorem isUsingDirective_words (more : List Token) :
    Span.isUsingDirective (directive.words ++ directive.path ++ semicolon :: more)
      = true := by
  have skipped : Span.skipWord "global"
      (directive.words ++ directive.path ++ semicolon :: more)
      = keyword "using" :: ((if directive.isStatic then [keyword "static"] else [])
        ++ directive.subject ++ semicolon :: more) := by
    rw [words_eq]
    cases directive.isGlobal with
    | false => exact (List.cons_append ..)
    | true => rfl
  have behind : Span.skipWord "static"
      ((if directive.isStatic then [keyword "static"] else [])
      ++ directive.subject ++ semicolon :: more)
        = directive.subject ++ semicolon :: more := by
    cases static : directive.isStatic with
    | true => rfl
    | false =>
        have other := directive.is_static_eq_false static
        cases found : directive.subject with
        | nil => rfl
        | cons first rest =>
            rw [found] at other
            exact if_neg (by simp [other first rfl])
  have taken : (directive.subject ++ semicolon :: more).takeWhile
      (fun token => !token.is ";")
      = directive.subject := by
    have unended := directive.is_eq_false_of_mem_subject (show ";" ∈ _ by decide)
    rw [List.takeWhile_append_of_pos fun token member => by simp [unended token member]]
    exact List.append_nil _
  have plain : directive.subject.any
      (fun token => token.is openBrace || token.is closeBrace)
      = false := by
    rw [List.any_eq_false]
    intro token member
    simp [directive.is_eq_false_of_mem_subject (show openBrace ∈ _ by decide)
      token member, directive.is_eq_false_of_mem_subject (show closeBrace ∈ _ by decide)
      token member]
  have named : (Span.isAlias directive.subject || Span.isName false directive.subject)
      = true := by
    rw [subject, aliasWords]
    cases directive.aliasName with
    | none => exact Bool.or_eq_true_iff.mpr (.inr directive.isName_path)
    | some name => rfl
  rw [Span.isUsingDirective, skipped]
  simp only [behind, taken, plain]
  rw [Bool.or_assoc, named, Bool.or_true]
  rfl

/-! ## Extent -/

open Lineup.Span (Passes)

theorem passes_name (name : Name) (assigned : Bool) :
    Passes [name.token] ⟨0, 0, 0, assigned⟩ ⟨0, 0, 0, assigned⟩ :=
  .cons (Span.outcome_plain name.is_eq_false rfl) (.nil _)

theorem passes_blank (state : Span.ItemState) : Passes [blank] state state :=
  .cons (Span.outcome_trivia rfl state) (.nil _)

theorem passes_path (assigned : Bool) :
    Passes directive.path ⟨0, 0, 0, assigned⟩ ⟨0, 0, 0, assigned⟩ := by
  rw [path]
  generalize directive.first = first
  induction directive.rest generalizing first with
  | nil => exact passes_name first assigned
  | cons second rest ih =>
      apply (passes_name first assigned).append
      exact .cons (fun _ => rfl) (ih second)

theorem passes_words :
    Passes (spaced directive.words) {} ⟨0, 0, 0, directive.aliasName.isSome⟩ := by
  have word {spelling : String}
      (lexed : Token.lex (utf8 spelling) = [⟨.identifier, utf8 spelling, 0⟩]) :
      Passes [keyword spelling, blank] {} {} :=
    (passes_name ⟨utf8 spelling, lexed⟩ false).append (passes_blank {})
  have optional {asked : Bool} {spelling : String}
      (passes : Passes [keyword spelling, blank] {} {}) :
      Passes (spaced (if asked then [keyword spelling] else [])) {} {} := by
    cases asked with
    | false => exact .nil {}
    | true => exact passes
  have aliased : Passes (spaced directive.aliasWords)
      {} ⟨0, 0, 0, directive.aliasName.isSome⟩ := by
    rw [aliasWords]
    cases directive.aliasName with
    | none => exact .nil {}
    | some name =>
        exact (passes_name name false).append
          ((passes_blank {}).append (.cons (fun _ => rfl) (passes_blank _)))
  rw [words, spaced, List.flatMap_append, List.flatMap_cons, List.flatMap_append]
  apply (optional (word (by decide +kernel))).append
  apply (word (by decide +kernel)).append
  exact (optional (word (by decide +kernel))).append aliased

/-- A directive ends with its semicolon. -/
theorem itemFrom_tokens (rest : List Token) :
    Span.itemFrom {} (directive.tokens ++ rest) = directive.tokens.length := by
  have front := directive.passes_words.append (directive.passes_path _)
  have last (assigned : Bool) : Span.itemFrom ⟨0, 0, 0, assigned⟩ (semicolon :: rest)
      = 1 := by
    cases assigned with
    | false => rfl
    | true => rfl
  rw [tokens, ← List.append_assoc, List.append_assoc, List.singleton_append, front,
    last, Nat.add_comm]
  exact (@List.length_append _ _ [semicolon]).symm

/-! ## Classification -/

omit directive in
theorem takeWord_bare {word : String} {asked : Bool} {tokens others : List Token}
    (same : tokens.map bare
      = ((if asked then [keyword word] else []) ++ others).map bare)
    (next : asked = false → ∀ first ∈ others.head?, first.is word = false) :
    ∃ rest, Directive.takeWord word tokens = (asked, rest)
      ∧ rest.map bare = others.map bare
      ∧ rest <:+ tokens := by
  cases asked with
  | true =>
      obtain ⟨token, rest, rfl, first, later⟩ := List.map_eq_cons_iff.mp same
      have found : token.is word = true := by
        rw [← Token.is_bare, first]
        simp [Token.is, bare, keyword, Token.isTrivia, TokenKind.isTrivia]
      exact ⟨rest, if_pos found, later, List.suffix_cons token rest⟩
  | false =>
      change tokens.map bare = others.map bare at same
      refine ⟨tokens, ?_, same, List.suffix_rfl⟩
      cases tokens with
      | nil => rfl
      | cons token rest =>
          obtain ⟨first, more, rfl, equal, -⟩ := List.map_eq_cons_iff.mp same.symm
          have other := next rfl first rfl
          rw [← Token.is_bare, equal, Token.is_bare] at other
          exact if_neg (by simp [other])

theorem takeAlias_bare {tokens : List Token}
    (same : tokens.map bare = directive.subject.map bare) :
    ∃ rest, Directive.takeAlias tokens = (directive.info.aliasName, rest)
      ∧ rest.map bare = directive.path.map bare ∧ rest <:+ tokens := by
  rw [subject, aliasWords] at same
  rw [info]
  cases given : directive.aliasName with
  | some name =>
      rw [given] at same
      obtain ⟨token, more, rfl, first, later⟩ := List.map_eq_cons_iff.mp same
      obtain ⟨equals, rest, rfl, second, others⟩ := List.map_eq_cons_iff.mp later
      have identifier : token.isIdentifier = true := by
        rw [← Token.isIdentifier_bare, first]
        rfl
      have assigns : equals.is "=" = true := by
        rw [← Token.is_bare, second]
        rfl
      have text : token.text = name.text := congrArg Token.text first
      refine ⟨rest, ?_, others, ?_⟩
      · simp [Directive.takeAlias, identifier, assigns, text]
      · exact (List.suffix_cons equals rest).trans (List.suffix_cons token _)
  | none =>
      rw [given] at same
      refine ⟨tokens, ?_, same, List.suffix_rfl⟩
      rw [path] at same
      obtain ⟨token, more, rfl, first, later⟩ := List.map_eq_cons_iff.mp same
      cases more with
      | nil => rfl
      | cons second more =>
          have plain : second.is "=" = false := by
            cases names : directive.rest with
            | nil =>
                rw [names] at later
                cases later
            | cons name rest =>
                rw [names] at later
                have dot : second.bare = (sign Byte.dot).bare := (List.cons.inj later).1
                rw [← Token.is_bare, dot]
                rfl
          simp [Directive.takeAlias, plain]

theorem solid_path : ∀ token ∈ directive.path, token.isTrivia = false := by
  intro token member
  rcases directive.mem_subject
    (List.mem_append_right _ member) with ⟨name, rfl⟩ | rfl | rfl
  · rfl
  · rfl
  · rfl

omit directive in
theorem gist_spaced {words : List Token}
    (solid : ∀ word ∈ words, word.isTrivia = false) :
    gist (spaced words) = words.map bare := by
  induction words with
  | nil => rfl
  | cons word words ih =>
      rw [List.forall_mem_cons] at solid
      have both : spaced (word :: words) = word :: ([blank] ++ spaced words) := rfl
      rw [both, Token.gist_cons solid.1, Token.gist_append, ih solid.2]
      rfl

theorem gist_words : gist (spaced directive.words) = directive.words.map bare :=
  gist_spaced fun word member => (directive.spoken_words word member).solid

theorem exists_significant (offset : Nat) :
    ∃ front final, Token.significant (Token.place offset directive.tokens)
        = front ++ Token.place (offset + (Token.joined (spaced directive.words)).length)
          directive.path
          ++ [final]
      ∧ front.map bare = directive.words.map bare ∧ final.is ";" = true := by
  have words := directive.gist_words
  rw [← Token.gist_place offset] at words
  refine ⟨_, { semicolon with
    offset := offset + (Token.joined (spaced directive.words)).length
      + (Token.joined directive.path).length }, ?_, words, rfl⟩
  rw [tokens, Token.place_append, Token.place_append, Token.significant_append,
    Token.significant_append, Token.significant_place directive.solid_path,
    ← List.append_assoc]
  rfl

/-- A directive is classified as it was written. -/
theorem classify_eq {source before after : Text}
    (parted : source = before ++ (directive.text ++ after)) {node : Node}
    (head : node.head = Token.significant
      (Token.place before.length directive.tokens)) :
    Directive.classify source node = directive.info := by
  obtain ⟨front, final, found, same, ends⟩ := directive.exists_significant before.length
  rw [← List.length_append] at found
  generalize lead : before ++ Token.joined (spaced directive.words) = start at found
  have dropped : Directive.dropSemicolon node.head
      = front ++ Token.place start.length directive.path := by
    rw [head, found, Directive.dropSemicolon, List.getLast?_concat,
      List.dropLast_concat, Option.any_some, ends, if_pos rfl]
  have all : (front ++ Token.place start.length directive.path).map bare
      = (directive.words ++ directive.path).map bare := by
    rw [List.map_append, same, Token.map_bare_place, List.map_append]
  rw [words_eq] at all
  -- Each word that is taken leaves an end of the tokens, and what is left at last is
  -- the target.
  obtain ⟨tokens, global, all, within⟩ :=
    takeWord_bare all (by intro _ first starts; cases starts; rfl)
  obtain ⟨tokens, opening, all, later⟩ := @takeWord_bare "using" true _ _ all nofun
  have within := later.trans within
  obtain ⟨tokens, static, all, later⟩ := takeWord_bare all directive.is_static_eq_false
  have within := later.trans within
  obtain ⟨tokens, aliased, all, later⟩ := directive.takeAlias_bare all
  have within := later.trans within
  have rest : tokens = Token.place start.length directive.path :=
    Token.eq_place_of_suffix all within
  obtain ⟨first, starts⟩ : ∃ first,
      (Token.place start.length directive.path).head? = some first :=
    ⟨_, rfl⟩
  obtain ⟨last, stops⟩ : ∃ last,
      (Token.place start.length directive.path).getLast? = some last :=
    ⟨_, List.getLast?_eq_some_getLast (List.cons_ne_nil _ _)⟩
  have spelled : source
      = start ++ (Token.joined directive.path ++ (semicolon.text ++ after)) := by
    rw [parted, ← lead, ← joined_tokens, UsingDirective.tokens, Token.joined_append,
      Token.joined_append]
    simp
  have between := Token.textBetween_place spelled starts stops
  rw [joined_path] at between
  rw [rest] at aliased
  simp only [Directive.classify, dropped, global, opening, static, aliased, starts,
    stops, between]
  rfl

/-! ## Parsing -/

theorem isUsingDirective_place (offset : Nat) (rest : List Token) :
    Span.isUsingDirective
      (Token.significant (Token.place offset directive.tokens ++ rest)) = true := by
  have path : gist directive.path = directive.path.map bare := by
    rw [gist, Token.significant_eq_self directive.solid_path]
  have ahead : (Token.significant (Token.place offset directive.tokens ++ rest)).map
      bare
      = (directive.words ++ directive.path ++ semicolon :: Token.significant rest).map
        bare := by
    change gist _ = _
    rw [Token.gist_append, Token.gist_place, tokens, Token.gist_append,
      Token.gist_append, gist_words, path, List.map_append, List.map_append,
      List.append_assoc, List.append_assoc, List.append_assoc]
    rfl
  rw [← Span.isUsingDirective_bare, ahead, Span.isUsingDirective_bare]
  exact directive.isUsingDirective_words _

theorem item_place (offset : Nat) (rest : List Token) :
    Span.item (Token.place offset directive.tokens ++ rest)
      = directive.tokens.length := by
  have opened : ((directive.tokens ++ rest).head?.any fun token => token.is closeBrace)
      = false := by
    rw [tokens, words]
    cases directive.isGlobal with
    | false => rfl
    | true => rfl
  rw [← Span.item_bare, List.map_append, Token.map_bare_place, ← List.map_append,
    Span.item_bare, Span.item, opened, if_neg Bool.false_ne_true, itemFrom_tokens]

theorem exists_place (offset : Nat) : ∃ first core,
    Token.place offset directive.tokens = first :: core ∧ first.isTrivia = false := by
  obtain ⟨first, starts, solid⟩ := (directive.sound_tokens []).solid
  cases own : directive.tokens with
  | nil =>
      rw [own] at starts
      cases starts
  | cons token core =>
      rw [own] at starts
      cases starts
      exact ⟨_, _, rfl, solid⟩

/-- The segments of a file with the given directives. -/
def listed (items : List Node) : List Segment :=
  if items.isEmpty then [] else [.list .directives items]

omit directive in
theorem add_listed (items : List Node) {node : Node}
    (kind : node.kind = .usingDirective) :
    (Parser.Body.items false (listed items)).add node
      = .items false (listed (items ++ [node])) := by
  rw [Parser.Body.add, if_pos kind]
  cases items with
  | nil => rfl
  | cons item items => rfl

theorem exists_readAll_place (next : Nat) (items : List Node) (offset : Nat)
    (rest : List Token) :
    ∃ node : Node, node.head = Token.significant (Token.place offset directive.tokens)
      ∧ Parser.Progress.readAll ⟨next, .items false (listed items), []⟩
          (Token.place offset directive.tokens ++ rest)
        = Parser.Progress.readAll
          ⟨next + 1, .items false (listed (items ++ [node])), []⟩
          (rest.drop (Span.trailing rest)) := by
  have recognised := directive.isUsingDirective_place offset rest
  have item := directive.item_place offset rest
  rw [← Token.length_place offset] at item
  obtain ⟨first, core, placed, solid⟩ := directive.exists_place offset
  rw [placed] at recognised item ⊢
  rw [List.cons_append] at recognised item
  have reads : Parser.Item.next (.items false) first (core ++ rest)
      = .leaf .usingDirective (Token.significant (first :: core))
        (core.length + 1) := by
    simp only [Parser.Item.next, recognised, if_true, item, List.length_cons]
    rw [Parser.Item.whole, List.take_succ_cons, List.take_left]
  have step := @Parser.Progress.readAll_cons ⟨next, .items false (listed items), []⟩ []
    (core ++ rest) first (List.forall_mem_nil _) solid
  have taken : Parser.Progress.read ⟨next, .items false (listed items), []⟩ [] first
      (core ++ rest)
      = Parser.Progress.addLeaf ⟨next, .items false (listed items), []⟩
        .usingDirective [] (Token.significant (first :: core)) (core.length + 1)
        (first :: (core ++ rest)) := by
    rw [Parser.Progress.read_eq]
    exact congrArg (Parser.Progress.take _ [] _) reads
  rw [List.nil_append, Token.joined_nil, taken, Parser.Progress.addLeaf,
    List.drop_succ_cons, List.drop_left, Parser.Progress.add,
    add_listed items rfl] at step
  exact ⟨_, rfl, step⟩

theorem exists_behind {source before : Text} {directives : List UsingDirective}
    (parted : source = before ++ lines (directive :: directives)) :
    ∃ rest front after,
      Token.place before.length (lineTokens (directive :: directives))
        = Token.place before.length directive.tokens ++ rest
      ∧ rest.drop (Span.trailing rest)
        = Token.place front.length (lineTokens directives)
      ∧ source = front ++ lines directives
      ∧ source = before ++ (directive.text ++ after) := by
  cases directives with
  | nil =>
      refine ⟨[], before ++ directive.text, [], ?_, rfl, ?_, ?_⟩
      · rw [List.append_nil]
        rfl
      · rw [parted]
        exact (List.append_nil _).symm
      · rw [parted, List.append_nil]
        rfl
  | cons next directives =>
      have text : lines (directive :: next :: directives)
          = directive.text ++ Byte.lineFeed :: lines (next :: directives) := by
        simp [lines, Text.join]
      refine ⟨
        Token.place (before ++ directive.text).length
          (newline :: lineTokens (next :: directives)),
        before ++ directive.text ++ [Byte.lineFeed],
        Byte.lineFeed :: lines (next :: directives), ?_, ?_, ?_, ?_⟩
      · rw [lineTokens, Token.place_append, joined_tokens, List.length_append]
      · rw [@List.length_append _ _ [Byte.lineFeed]]
        rfl
      · rw [parted, text]
        simp
      · rw [parted, text]

/-- A file of directives is read directive by directive. -/
theorem readAll_lineTokens {source before : Text} {directives : List UsingDirective}
    (parted : source = before ++ lines directives) (next : Nat) (items : List Node) :
    ∃ nodes, Parser.Progress.readAll ⟨next, .items false (listed items), []⟩
        (Token.place before.length (lineTokens directives))
        = .mk ⟨0, .compilationUnit, [], [], []⟩ (listed (items ++ nodes))
      ∧ nodes.map (Directive.classify source) = directives.map info := by
  induction directives generalizing before next items with
  | nil =>
      refine ⟨[], ?_, rfl⟩
      rw [lineTokens, Token.place,
        Parser.Progress.readAll_trivia _ (List.forall_mem_nil _)]
      simp [Parser.Progress.finish, Parser.Body.segments]
  | cons directive directives ih =>
      obtain ⟨rest, front, after, tokens, behind, later, own⟩ :=
        directive.exists_behind parted
      obtain ⟨node, head, step⟩ :=
        directive.exists_readAll_place next items before.length rest
      obtain ⟨nodes, read, found⟩ := ih later (next + 1) (items ++ [node])
      refine ⟨node :: nodes, ?_, ?_⟩
      · rw [tokens, step, behind, read, List.append_assoc]
        rfl
      · rw [List.map_cons, List.map_cons, found, directive.classify_eq own head]

end UsingDirective

namespace Tree

/-- A file of using directives, line by line, has one list, and the items of this list
are the directives as they were written. -/
theorem directives_parse {directives : List UsingDirective}
    (present : directives ≠ []) :
    let tree := parse (UsingDirective.lines directives)
    ∃ root items, tree.node? tree.root = some root ∧ root.lists = [(.directives, items)]
      ∧ items.map (Directive.classify tree.source)
        = directives.map UsingDirective.info := by
  intro tree
  have parted : UsingDirective.lines directives
      = [] ++ UsingDirective.lines directives := rfl
  obtain ⟨items, read, same⟩ := UsingDirective.readAll_lineTokens parted 1 []
  have top : tree.top
      = .mk ⟨0, .compilationUnit, [], [], []⟩ (UsingDirective.listed items) := by
    rw [List.length_nil, ← UsingDirective.lex_lines] at read
    exact read
  refine ⟨_, items, (isArena_parse _).node?_root, ?_, same⟩
  change tree.top.lists = _
  rw [top]
  cases items with
  | nil => exact absurd (List.map_eq_nil_iff.mp same.symm) present
  | cons item items => rfl

/-- Two directives with names that are words of a directive elsewhere. -/
def keywordNames : List UsingDirective :=
  [ { isGlobal := true
      isStatic := true
      aliasName := none
      first := { text := utf8 "static" }
      rest := [{ text := utf8 "_1" }]
      plain := by decide }
  , { isGlobal := false
      isStatic := false
      aliasName := some { text := utf8 "@using" }
      first := { text := utf8 "global" }
      rest := [{ text := utf8 "Größe" }]
      plain := by decide +kernel } ]

theorem directives_parse_keywordNames :
    UsingDirective.lines keywordNames
        = utf8 "global using static static._1;\nusing @using = global.Größe;"
      ∧ keywordNames ≠ []
      ∧ let tree := parse (UsingDirective.lines keywordNames)
        ∃ root items, tree.node? tree.root = some root
          ∧ root.lists = [(.directives, items)]
          ∧ items.map (Directive.classify tree.source) =
            [⟨utf8 "static._1", [], true, true⟩,
              ⟨utf8 "global.Größe", utf8 "@using", false, false⟩] :=
  ⟨by decide +kernel, List.cons_ne_nil _ _, directives_parse (List.cons_ne_nil _ _)⟩

end Tree

end Lineup
