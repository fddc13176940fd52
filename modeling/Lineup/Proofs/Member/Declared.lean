import Lineup.Proofs.Keys
import Lineup.Proofs.Member.Types
import Lineup.Proofs.Units

/-!
# Declared names

A member is written as a type, a name and what stands behind the name. In a class it is
found as the only member. Whether its kind and its name are found depends on its type
alone: they are, unless the reading ends at a comma between type arguments, and then it
is taken for a field, whatever it is.
-/

namespace Lineup

/-- What stands behind the declared name of a member. -/
inductive Ending where
  | semicolon
  | initializer
  | accessors
  | arrow
  | signature
  | block
  deriving DecidableEq, Repr

namespace Ending

/-- How an ending is written. -/
def spelling : Ending → List String
  | semicolon => [";"]
  | initializer => ["=", "0", ";"]
  | accessors => [openBrace, "get;", closeBrace]
  | arrow => ["=>", "0", ";"]
  | signature => ["(", ")", ";"]
  | block => ["(", ")", openBrace, closeBrace]

/-- The kind of the members with an ending. -/
def kind : Ending → MemberKind
  | semicolon => .field
  | initializer => .field
  | accessors => .property
  | arrow => .property
  | signature => .method
  | block => .method

/-- A sign as a token. -/
def sign (spelling : String) : Token :=
  ⟨.punctuation, utf8 spelling, 0⟩

/-- The tokens of an ending, without their places. -/
def tokens : Ending → List Token
  | semicolon => [sign ";"]
  | initializer => [sign "=", ⟨.number, utf8 "0", 0⟩, sign ";"]
  | accessors =>
      [sign openBrace, ⟨.identifier, utf8 "get", 0⟩, sign ";", sign closeBrace]
  | arrow => [sign "=>", ⟨.number, utf8 "0", 0⟩, sign ";"]
  | signature => [sign "(", sign ")", sign ";"]
  | block => [sign "(", sign ")", sign openBrace, sign closeBrace]

theorem isFixed_spelling (ending : Ending) :
    ∀ word ∈ ending.spelling, Token.isFixed (utf8 word) = true := by
  cases ending <;> decide +kernel

/-- The words of an ending. -/
def words (ending : Ending) : List Token.Word :=
  ending.spelling.pmap (fun word fixed => .ofFixed (utf8 word) fixed)
    ending.isFixed_spelling

theorem map_text_words (ending : Ending) :
    ending.words.map Token.Word.text = ending.spelling.map utf8 := by
  cases ending <;> rfl

theorem flatMap_words (ending : Ending) :
    ending.words.flatMap Token.Word.tokens = ending.tokens := by
  cases ending <;> decide +kernel

/-- An item ends with its ending. -/
theorem itemFrom_tokens (ending : Ending) :
    Span.itemFrom {} (ending.tokens ++ [Standalone.brace]) = ending.tokens.length := by
  cases ending <;> rfl

theorem shapeFrom_tokens (name : Text) (identifier : Identifier) (ending : Ending) :
    Member.shapeFrom ⟨false, false, false⟩ ⟨0, 0, 0, name, some identifier.token⟩
      ending.tokens
      = (ending.kind, name) := by
  cases ending <;> rfl

end Ending

/-- A member as it is written. -/
structure Declaration where
  type : TypePhrase
  name : Identifier
  ending : Ending

namespace Declaration

/-- The text of a declaration, with blanks between its tokens. -/
def text (declaration : Declaration) : Text :=
  Text.join [Byte.space]
    (declaration.type.spell Identifier.text (fun sign => utf8 sign.spelling)
      ++ declaration.name.text :: declaration.ending.spelling.map utf8)

/-- The tokens of a declaration, without their places. -/
def tokens (declaration : Declaration) : List Token :=
  declaration.type.tokens ++ declaration.name.token :: declaration.ending.tokens

/-- The words of a declaration. -/
def words (declaration : Declaration) : List Token.Word :=
  declaration.type.words ++ declaration.name.word :: declaration.ending.words

theorem text_eq_line (declaration : Declaration) :
    declaration.text = Token.Word.line declaration.words := by
  rw [text, Token.Word.line, words, List.map_append, List.map_cons,
    Ending.map_text_words, Phrase.words, Phrase.map_spell]
  rfl

theorem flatMap_words (declaration : Declaration) :
    declaration.words.flatMap Token.Word.tokens = declaration.tokens := by
  rw [words, List.flatMap_append, List.flatMap_cons, Phrase.flatMap_words,
    Ending.flatMap_words]
  rfl

theorem starts (declaration : Declaration) (rest : List Token) :
    Phrase.Starts (declaration.tokens ++ rest) := by
  rw [tokens, List.append_assoc]
  exact declaration.type.starts (declaration.name.is_eq_false (by decide))

/-- An item in front of the brace of its class ends with the declaration. -/
theorem itemFrom_tokens (declaration : Declaration) :
    Span.itemFrom {} (declaration.tokens ++ [Standalone.brace])
      = declaration.tokens.length := by
  have front := (Span.passes_phrase declaration.type 0 0 false).append
    (.identifier declaration.name (.nil _))
  rw [tokens, ← List.singleton_append, ← List.append_assoc,
    List.append_assoc _ _ [Standalone.brace], front, declaration.ending.itemFrom_tokens,
    Nat.add_comm]
  exact List.length_append.symm

end Declaration

namespace Phrase.Starts

variable {tokens : List Token} (starts : Starts tokens)

include starts

theorem skipAttributes_eq : Span.skipAttributes 0 tokens = tokens := by
  cases starts with
  | word identifier apart =>
      simp [Span.skipAttributes, identifier.is_eq_false (show "[" ∈ _ by decide)]
  | paren rest => rfl

theorem declaredType?_eq_none : Span.declaredType? tokens = none := by
  rw [Span.declaredType?, starts.skipAttributes_eq]
  cases starts with
  | word identifier apart =>
      have plain : Span.isModifierToken identifier.token = false :=
        identifier.not_isModifier
      simp [plain, identifier.is_eq_false (show "class" ∈ _ by decide),
        identifier.is_eq_false (show "struct" ∈ _ by decide),
        identifier.is_eq_false (show "interface" ∈ _ by decide),
        identifier.is_eq_false (show "enum" ∈ _ by decide),
        identifier.is_eq_false (show "record" ∈ _ by decide)]
  | paren rest => rfl

/-- What starts like a phrase is read from its first token on. -/
theorem classify_eq {node : Node} (fallback : AccessLevel) (kind : node.kind = .member)
    (head : node.head.map Token.bare = tokens.map Token.bare) :
    ((Member.classify fallback node).kind, (Member.classify fallback node).name)
      = Member.shape false tokens := by
  have modifiers : tokens.takeWhile Member.isModifier = []
      ∧ tokens.dropWhile Member.isModifier = tokens := by
    cases starts with
    | word identifier apart =>
        have plain : Member.isModifier identifier.token = false :=
          identifier.not_isModifier
        simp [plain]
    | paren rest => exact ⟨rfl, rfl⟩
  have faces := Token.map_bare_iff.mp head.symm
  have same : Member.classify fallback (.mk ⟨0, .member, [], [], tokens⟩ [])
      = Member.classify fallback node := Member.classify_congr fallback kind.symm faces
  rw [← same]
  simp [Member.classify, Node.head, Node.info, Node.kind, starts.skipAttributes_eq,
    modifiers]

omit starts in
theorem is_closeBrace {first : Token} {rest : List Token}
    (starts : Starts (first :: rest)) :
    first.is closeBrace = false := by
  cases starts with
  | word identifier apart => exact identifier.is_eq_false (by decide)
  | paren rest => rfl

end Phrase.Starts

/-- The kinds and the names of the members of the class that a text starts with. -/
def Tree.declared? (source : Text) : Option (List (MemberKind × Text)) :=
  match (Tree.parse source).top.children with
  | .mk info (.text _ :: .list .members members :: _) :: _ =>
      some (members.map fun member =>
        let found := Member.classify (AccessLevel.default info.kind) member
        (found.kind, found.name))
  | _ => none

namespace Declaration

open Token (gist)

theorem gist_text (declaration : Declaration) :
    gist (Token.lexFrom true 10 (declaration.text ++ Byte.lineFeed :: utf8 "\x7d\n"))
      = declaration.tokens ++ [Standalone.brace] := by
  rw [text_eq_line, Token.Word.gist_line, flatMap_words, Standalone.gist_brace]

theorem solid_tokens (declaration : Declaration) :
    ∀ token ∈ declaration.tokens ++ [Standalone.brace], token.isTrivia = false := by
  rw [← gist_text]
  exact Token.solid_gist

theorem next_tokens (declaration : Declaration) {first : Token} {core : List Token}
    (own : declaration.tokens = first :: core) :
    Parser.Item.next .members first (core ++ [Standalone.brace])
      = .leaf .member declaration.tokens (core.length + 1) := by
  have solid := declaration.solid_tokens
  have starts := declaration.starts [Standalone.brace]
  have width := declaration.itemFrom_tokens
  rw [own, List.cons_append] at solid starts width
  have all := Token.significant_eq_self solid
  rw [List.forall_mem_cons, List.forall_mem_append] at solid
  have item : Span.item (first :: (core ++ [Standalone.brace])) = core.length + 1 := by
    rw [Span.item_cons, starts.is_closeBrace, if_neg Bool.false_ne_true, width,
      List.length_cons]
  have head : Token.significant
      ((first :: (core ++ [Standalone.brace])).take (core.length + 1))
      = first :: core := by
    rw [List.take_succ_cons, List.take_left, Token.significant_cons solid.1,
      Token.significant_eq_self solid.2.1]
  simp only [Parser.Item.next, all, starts.declaredType?_eq_none]
  rw [Parser.Item.whole, item, head, own]

theorem exists_member (declaration : Declaration) {members : List Node}
    {tokens rest : List Token} (parsed : Parser.Parsed .members members tokens rest)
    (done : Parser.Done .members rest)
    (same : gist (tokens ++ rest) = declaration.tokens ++ [Standalone.brace]) :
    ∃ member, members = [member] ∧ member.kind = .member
      ∧ member.head.map Token.bare = declaration.tokens.map Token.bare := by
  have starts := declaration.starts [Standalone.brace]
  have solid := declaration.solid_tokens
  have gists : gist (tokens ++ rest)
      = gist (declaration.tokens ++ [Standalone.brace]) := by
    rw [← same, Token.gist_gist]
  cases own : declaration.tokens with
  | nil => exact absurd own (by simp [Declaration.tokens])
  | cons first core =>
      have reads := declaration.next_tokens own
      rw [own, List.cons_append] at solid starts gists
      rw [own] at reads
      rw [List.forall_mem_cons] at solid
      exact parsed.exists_leaf done Standalone.done_brace solid.1 starts.is_closeBrace
        reads gists

/-- A declaration is found as the only member of its class, and read from its first
token on. -/
theorem declared?_text (declaration : Declaration) :
    Tree.declared? (classText [declaration.text])
      = some [Member.shapeFrom ⟨false, false, false⟩ ⟨0, 0, 0, [], none⟩
        declaration.tokens] := by
  have text : classText [declaration.text]
      = utf8 "class C \x7b\n"
        ++ (declaration.text ++ Byte.lineFeed :: utf8 "\x7d\n") := by
    rw [classText, List.append_assoc, List.intercalate_singleton]
    rfl
  have starts := declaration.starts []
  rw [List.append_nil] at starts
  have found := ClassText.found_children
    (declaration.text ++ Byte.lineFeed :: utf8 "\x7d\n")
  have gists := declaration.gist_text
  rw [Tree.declared?, text]
  generalize (Tree.parse _).top.children = nodes at found
  cases found with
  | @intro info members others body closing trail rest final kind leading tokens parsed
    closes =>
      rw [tokens] at gists
      obtain ⟨member, rfl, plain, head⟩ :=
        declaration.exists_member parsed closes.done gists
      have read := starts.classify_eq (AccessLevel.default info.kind) plain head
      rw [Member.shape_eq_shapeFrom false starts] at read
      exact congrArg (fun found => some [found]) read

end Declaration

namespace Tree

variable (type : TypePhrase) (name : Identifier)

/-- Behind a type that is read to its end, the name is found, and what follows it
decides the kind. -/
theorem declared?_of_isSome (read : (type.anglesAfter? 0).isSome = true)
    (ending : Ending) :
    declared? (classText [Declaration.text ⟨type, name, ending⟩])
      = some [(ending.kind, name.text)] := by
  obtain ⟨angles, after⟩ := Option.isSome_iff_exists.mp read
  obtain rfl : angles = 0 := Nat.le_zero.mp (type.anglesAfter?_le 0 angles after)
  have scans := Member.scans_phrase ⟨false, false, false⟩ type 0 [] none (.inl rfl)
  rw [after] at scans
  cases scans with
  | goesOn leads =>
      rw [Declaration.declared?_text, Declaration.tokens, leads,
        Member.shapeFrom_identifier]
      exact congrArg (fun found => some [found])
        (ending.shapeFrom_tokens name.text name)

theorem exists_declared?_of_none (stops : type.anglesAfter? 0 = none) :
    ∃ word, ∀ ending, declared? (classText [Declaration.text ⟨type, name, ending⟩])
      = some [(.field, word)] := by
  have scans := Member.scans_phrase ⟨false, false, false⟩ type 0 [] none (.inl rfl)
  rw [stops] at scans
  cases scans with
  | @stops word ends =>
      refine ⟨word, fun ending => ?_⟩
      rw [Declaration.declared?_text, Declaration.tokens, ends]
      rfl

/-- A member of each form is found with its kind and its name exactly when its type is
read to its end: no comma between type arguments is met with all angle brackets taken
for closed. Types whose tuples hold no type arguments are read to their end. -/
theorem declared?_text_iff :
    ((∀ ending, declared? (classText [Declaration.text ⟨type, name, ending⟩])
        = some [(ending.kind, name.text)]) ↔ (type.anglesAfter? 0).isSome = true)
      ∧ (type.plainTuples = true → ∀ ending,
        declared? (classText [Declaration.text ⟨type, name, ending⟩])
          = some [(ending.kind, name.text)]) := by
  refine ⟨⟨fun found => ?_, declared?_of_isSome type name⟩, fun plain => ?_⟩
  · by_contra unread
    rw [Bool.not_eq_true, Option.isSome_eq_false_iff,
      Option.isNone_iff_eq_none] at unread
    obtain ⟨word, fields⟩ := exists_declared?_of_none type name unread
    have property := (found .arrow).symm.trans (fields .arrow)
    cases property
  · have read : type.anglesAfter? 0 = some 0 :=
      type.anglesAfter?_of_plainTuples plain (.inr (.inl rfl))
    exact declared?_of_isSome type name (Option.isSome_of_eq_some read)

/-- A tuple with type arguments among type arguments closes the angle bracket in front
of it, so the comma behind it ends the reading. -/
theorem declared?_text_tuple :
    let fields : Phrase .fields :=
      .moreFields
        (.named (.generic { text := utf8 "L" }
          (.argument (.named (.plain { text := utf8 "A" })))))
        { text := utf8 "a" }
        (.field (.named (.plain { text := utf8 "B" })) { text := utf8 "b" })
    let type : TypePhrase :=
      .named (.generic { text := utf8 "D" }
        (.moreArguments (.tuple fields)
          (.argument (.named (.plain { text := utf8 "E" })))))
    let source := Declaration.text ⟨type, { text := utf8 "x" }, .semicolon⟩
    source = utf8 "D < ( L < A > a , B b ) , E > x ;"
      ∧ declared? (classText [source]) = some [(.field, utf8 "D")] := by
  decide +kernel

end Tree

end Lineup
