import Lineup.Member
import Lineup.Proofs.Token.Words

/-!
# Types in front of declared names

The types that a member can be declared with are made of names with type arguments,
arrays, nullable types and tuples. The reading of a member counts the angle brackets
that are open. It counts opening ones outside of parentheses only, but closing ones
everywhere, so a tuple among type arguments closes as many of the angle brackets around
it as there are inside of it. Here is what that does to a reading: it passes over a
type, unless it meets a comma between type arguments with no bracket left open.
-/

namespace Lineup

/-- The words, other than modifiers, that decide about a declaration. -/
def Identifier.reserved : List String :=
  ["class", "struct", "interface", "enum", "record", "delegate", "event",
    "operator", "this"]

/-- An identifier that is not a modifier and does not decide about a declaration. -/
structure Identifier where
  text : Text
  lexed : Token.lex text = [⟨.identifier, text, 0⟩] := by decide +kernel
  free : ∀ word ∈ Span.modifiers ++ Identifier.reserved, text ≠ utf8 word := by decide

/-- The signs that types are spelled with. -/
inductive Sign where
  | less
  | greater
  | dot
  | comma
  | questionMark
  | openBracket
  | closeBracket
  | openParen
  | closeParen
  deriving DecidableEq, Repr

/-- How a sign is written. -/
def Sign.spelling : Sign → String
  | less => "<"
  | greater => ">"
  | dot => "."
  | comma => ","
  | questionMark => "?"
  | openBracket => "["
  | closeBracket => "]"
  | openParen => "("
  | closeParen => ")"

namespace Identifier

/-- The identifier as a token. -/
def token (identifier : Identifier) : Token :=
  ⟨.identifier, identifier.text, 0⟩

/-- The identifier as a word. -/
def word (identifier : Identifier) : Token.Word :=
  .ofIdentifier identifier.text identifier.lexed

@[simp]
theorem tokens_word (identifier : Identifier) :
    identifier.word.tokens = [identifier.token] := rfl

/-- The signs that decide about a declaration. -/
def signs : List String :=
  ["<", ">", "(", ")", "[", "]", ",", ";", "=", "=>", "~", openBrace, closeBrace]

theorem is_sign_eq_false {text : Text}
    (lexed : Token.lex text = [⟨.identifier, text, 0⟩]) {spelling : String}
    (listed : spelling ∈ signs) :
    Token.is ⟨.identifier, text, 0⟩ spelling = false := by
  have punctuation : ∀ sign ∈ signs,
      Token.lex (utf8 sign) ≠ [⟨.identifier, utf8 sign, 0⟩] := by
    decide +kernel
  have other : text ≠ utf8 spelling :=
    fun same => punctuation spelling listed (same ▸ lexed)
  simp [Token.is, other]

theorem is_eq_false (identifier : Identifier) {spelling : String}
    (listed : spelling ∈ signs ++ reserved) : identifier.token.is spelling = false := by
  rcases List.mem_append.mp listed with sign | word
  · exact is_sign_eq_false identifier.lexed sign
  · have other := identifier.free spelling (List.mem_append_right _ word)
    simp [Token.is, token, other]

theorem not_isModifier (identifier : Identifier) :
    Span.isModifier identifier.text = false := by
  rw [Span.isModifier, List.any_eq_false]
  intro word listed
  simpa using identifier.free word (List.mem_append_left _ listed)

end Identifier

namespace Sign

/-- The sign as a token. -/
def token (sign : Sign) : Token :=
  ⟨.punctuation, utf8 sign.spelling, 0⟩

theorem isFixed_spelling (sign : Sign) : Token.isFixed (utf8 sign.spelling) = true := by
  cases sign <;> decide +kernel

/-- The sign as a word. -/
def word (sign : Sign) : Token.Word :=
  .ofFixed (utf8 sign.spelling) sign.isFixed_spelling

@[simp]
theorem tokens_word (sign : Sign) : sign.word.tokens = [sign.token] := by
  cases sign <;> decide +kernel

end Sign

/-- The kinds of phrases that types are made of. -/
inductive PhraseKind where
  | name
  | type
  | arguments
  | fields
  deriving DecidableEq, Repr

/-- The grammar of types. -/
inductive Phrase : PhraseKind → Type where
  | plain (word : Identifier) : Phrase .name
  | generic (word : Identifier) (arguments : Phrase .arguments) : Phrase .name
  | dotted (qualifier : Phrase .name) (word : Identifier) : Phrase .name
  | dottedGeneric (qualifier : Phrase .name) (word : Identifier)
        (arguments : Phrase .arguments) :
      Phrase .name
  | named (name : Phrase .name) : Phrase .type
  | array (element : Phrase .type) : Phrase .type
  /-- An array of two dimensions. -/
  | matrix (element : Phrase .type) : Phrase .type
  | nullable (type : Phrase .type) : Phrase .type
  | tuple (fields : Phrase .fields) : Phrase .type
  | argument (type : Phrase .type) : Phrase .arguments
  | moreArguments (type : Phrase .type) (others : Phrase .arguments) : Phrase .arguments
  | field (type : Phrase .type) (word : Identifier) : Phrase .fields
  | moreFields (type : Phrase .type) (word : Identifier) (others : Phrase .fields) :
        Phrase .fields

/-- A type. -/
abbrev TypePhrase := Phrase .type

namespace Phrase

/-- The identifiers and signs of a phrase, each turned into something. -/
def spell {α : Type} (word : Identifier → α) (sign : Sign → α) :
    {kind : PhraseKind} → Phrase kind → List α
  | _, plain name => [word name]
  | _, generic name arguments =>
      word name :: sign .less :: (arguments.spell word sign ++ [sign .greater])
  | _, dotted qualifier name => qualifier.spell word sign ++ [sign .dot, word name]
  | _, dottedGeneric qualifier name arguments =>
      qualifier.spell word sign
        ++ sign .dot :: word name :: sign .less
          :: (arguments.spell word sign ++ [sign .greater])
  | _, named name => name.spell word sign
  | _, array element =>
      element.spell word sign ++ [sign .openBracket, sign .closeBracket]
  | _, matrix element =>
      element.spell word sign ++ [sign .openBracket, sign .comma, sign .closeBracket]
  | _, nullable type => type.spell word sign ++ [sign .questionMark]
  | _, tuple fields => sign .openParen :: (fields.spell word sign ++ [sign .closeParen])
  | _, argument type => type.spell word sign
  | _, moreArguments type others =>
      type.spell word sign ++ sign .comma :: others.spell word sign
  | _, field type name => type.spell word sign ++ [word name]
  | _, moreFields type name others =>
      type.spell word sign ++ word name :: sign .comma :: others.spell word sign

/-- How many type arguments a phrase closes. -/
def closers : {kind : PhraseKind} → Phrase kind → Nat
  | _, plain _ => 0
  | _, generic _ arguments => arguments.closers + 1
  | _, dotted qualifier _ => qualifier.closers
  | _, dottedGeneric qualifier _ arguments =>
      qualifier.closers + (arguments.closers + 1)
  | _, named name => name.closers
  | _, array element => element.closers
  | _, matrix element => element.closers
  | _, nullable type => type.closers
  | _, tuple fields => fields.closers
  | _, argument type => type.closers
  | _, moreArguments type others => type.closers + others.closers
  | _, field type _ => type.closers
  | _, moreFields type _ others => type.closers + others.closers

/-- How many angle brackets are taken to be open behind a phrase that stands outside of
parentheses, with the given number in front. There is no answer if a comma is met with
none open. -/
def anglesAfter? (angles : Nat) : {kind : PhraseKind} → Phrase kind → Option Nat
  | _, plain _ => some angles
  | _, generic _ arguments => (arguments.anglesAfter? (angles + 1)).map (· - 1)
  | _, dotted qualifier _ => qualifier.anglesAfter? angles
  | _, dottedGeneric qualifier _ arguments =>
      (qualifier.anglesAfter? angles).bind fun angles =>
        (arguments.anglesAfter? (angles + 1)).map (· - 1)
  | _, named name => name.anglesAfter? angles
  | _, array element => element.anglesAfter? angles
  | _, matrix element => element.anglesAfter? angles
  | _, nullable type => type.anglesAfter? angles
  | _, tuple fields => some (angles - fields.closers)
  | _, argument type => type.anglesAfter? angles
  | _, moreArguments type others =>
      (type.anglesAfter? angles).bind fun angles =>
        if angles = 0 then none else others.anglesAfter? angles
  | _, field type _ => type.anglesAfter? angles
  | _, moreFields type _ others =>
      (type.anglesAfter? angles).bind fun angles =>
        if angles = 0 then none else others.anglesAfter? angles

/-- Whether the tuples of a phrase hold no type arguments. -/
def plainTuples : {kind : PhraseKind} → Phrase kind → Bool
  | _, plain _ => true
  | _, generic _ arguments => arguments.plainTuples
  | _, dotted qualifier _ => qualifier.plainTuples
  | _, dottedGeneric qualifier _ arguments =>
      qualifier.plainTuples && arguments.plainTuples
  | _, named name => name.plainTuples
  | _, array element => element.plainTuples
  | _, matrix element => element.plainTuples
  | _, nullable type => type.plainTuples
  | _, tuple fields => fields.closers == 0
  | _, argument type => type.plainTuples
  | _, moreArguments type others => type.plainTuples && others.plainTuples
  | _, field type _ => type.plainTuples
  | _, moreFields type _ others => type.plainTuples && others.plainTuples

/-- The tokens of a phrase, without their places. -/
def tokens {kind : PhraseKind} (phrase : Phrase kind) : List Token :=
  phrase.spell Identifier.token Sign.token

/-- The words of a phrase. -/
def words {kind : PhraseKind} (phrase : Phrase kind) : List Token.Word :=
  phrase.spell Identifier.word Sign.word

theorem flatMap_words {kind : PhraseKind} (phrase : Phrase kind) :
    phrase.words.flatMap Token.Word.tokens = phrase.tokens := by
  rw [words, tokens]
  induction phrase <;> simp_all [spell]

theorem map_spell {α β : Type} (f : α → β) (word : Identifier → α) (sign : Sign → α)
    {kind : PhraseKind} (phrase : Phrase kind) :
    (phrase.spell word sign).map f = phrase.spell (f ∘ word) (f ∘ sign) := by
  induction phrase <;> simp_all [spell]

/-- No angle bracket is left open that was not open in front of the phrase. -/
theorem anglesAfter?_le {kind : PhraseKind} (phrase : Phrase kind) (angles : Nat) :
    ∀ after ∈ phrase.anglesAfter? angles, after ≤ angles := by
  induction phrase generalizing angles with
  | plain identifier => simp [anglesAfter?]
  | generic identifier arguments ih =>
      intro after found
      obtain ⟨inner, within, rfl⟩ := Option.map_eq_some_iff.mp found
      exact Nat.sub_le_of_le_add (ih _ inner within)
  | dotted qualifier identifier ih => exact ih angles
  | dottedGeneric qualifier identifier arguments ih others =>
      intro after found
      obtain ⟨between, front, found⟩ := Option.mem_bind_iff.mp found
      obtain ⟨inner, within, rfl⟩ := Option.map_eq_some_iff.mp found
      exact (Nat.sub_le_of_le_add (others _ inner within)).trans
        (ih angles between front)
  | named name ih => exact ih angles
  | array element ih => exact ih angles
  | matrix element ih => exact ih angles
  | nullable type ih => exact ih angles
  | tuple fields ih => simp [anglesAfter?]
  | argument type ih => exact ih angles
  | moreArguments type arguments ih others =>
      intro after found
      obtain ⟨between, front, found⟩ := Option.mem_bind_iff.mp found
      split at found
      · cases found
      · exact (others between after found).trans (ih angles between front)
  | field type identifier ih => exact ih angles
  | moreFields type identifier fields ih others =>
      intro after found
      obtain ⟨between, front, found⟩ := Option.mem_bind_iff.mp found
      split at found
      · cases found
      · exact (others between after found).trans (ih angles between front)

/-- With plain tuples as many angle brackets are open behind a name or a type as in
front of it, and likewise behind what stands inside of type arguments. -/
theorem anglesAfter?_of_plainTuples {kind : PhraseKind} (phrase : Phrase kind)
    {angles : Nat} (plain : phrase.plainTuples = true)
    (inside : kind = .name ∨ kind = .type ∨ 0 < angles) :
    phrase.anglesAfter? angles = some angles := by
  induction phrase generalizing angles with
  | plain identifier => rfl
  | generic identifier arguments ih =>
      rw [anglesAfter?, ih plain (.inr (.inr angles.succ_pos))]
      rfl
  | dotted qualifier identifier ih => exact ih plain (.inl rfl)
  | dottedGeneric qualifier identifier arguments ih others =>
      obtain ⟨front, inner⟩ := Bool.and_eq_true_iff.mp plain
      rw [anglesAfter?, ih front (.inl rfl), Option.bind_some,
        others inner (.inr (.inr angles.succ_pos))]
      rfl
  | named name ih => exact ih plain (.inl rfl)
  | array element ih => exact ih plain (.inr (.inl rfl))
  | matrix element ih => exact ih plain (.inr (.inl rfl))
  | nullable type ih => exact ih plain (.inr (.inl rfl))
  | tuple fields ih => rw [anglesAfter?, beq_iff_eq.mp plain, Nat.sub_zero]
  | argument type ih => exact ih plain (.inr (.inl rfl))
  | moreArguments type arguments ih others =>
      obtain ⟨front, later⟩ := Bool.and_eq_true_iff.mp plain
      have nonzero : 0 < angles := by simpa using inside
      rw [anglesAfter?, ih front (.inr (.inl rfl)), Option.bind_some,
        if_neg nonzero.ne', others later (.inr (.inr nonzero))]
  | field type identifier ih => exact ih plain (.inr (.inl rfl))
  | moreFields type identifier fields ih others =>
      obtain ⟨front, later⟩ := Bool.and_eq_true_iff.mp plain
      have nonzero : 0 < angles := by simpa using inside
      rw [anglesAfter?, ih front (.inr (.inl rfl)), Option.bind_some,
        if_neg nonzero.ne', others later (.inr (.inr nonzero))]

/-- How a declaration starts that is no constructor: with an identifier that is not in
front of a parenthesis, or with a parenthesis. -/
inductive Starts : List Token → Prop where
  | word (identifier : Identifier) {rest : List Token}
      (apart : (rest.head?.any fun token => token.is "(") = false) :
      Starts (identifier.token :: rest)
  | paren (rest : List Token) : Starts (Sign.openParen.token :: rest)

theorem starts {kind : PhraseKind} (phrase : Phrase kind) {rest : List Token}
    (apart : (rest.head?.any fun token => token.is "(") = false) :
    Starts (phrase.tokens ++ rest) := by
  have extend {tokens more rest : List Token}
      (front : Starts (tokens ++ (more ++ rest))) :
      Starts (tokens ++ more ++ rest) := by
    rwa [List.append_assoc]
  induction phrase generalizing rest with
  | plain identifier => exact .word identifier apart
  | generic identifier arguments ih => exact .word identifier rfl
  | dotted qualifier identifier ih => exact extend (ih rfl)
  | dottedGeneric qualifier identifier arguments ih => exact extend (ih rfl)
  | named name ih => exact ih apart
  | array element ih => exact extend (ih rfl)
  | matrix element ih => exact extend (ih rfl)
  | nullable type ih => exact extend (ih rfl)
  | tuple fields ih => exact .paren _
  | argument type ih => exact ih apart
  | moreArguments type arguments ih => exact extend (ih rfl)
  | field type identifier ih =>
      exact extend (ih (identifier.is_eq_false (by decide)))
  | moreFields type identifier fields ih =>
      exact extend (ih (identifier.is_eq_false (by decide)))

end Phrase

/-! ## The end of an item -/

namespace Span

/-- The end of an item is sought past the tokens, which change its state. -/
def Passes (tokens : List Token) (state next : ItemState) : Prop :=
  ∀ rest, itemFrom state (tokens ++ rest) = itemFrom next rest + tokens.length

namespace Passes

variable {tokens more : List Token} {state next last : ItemState}

theorem nil (state : ItemState) : Passes [] state state := fun _ => rfl

theorem append (first : Passes tokens state next) (second : Passes more next last) :
    Passes (tokens ++ more) state last := by
  intro rest
  rw [List.append_assoc, first, second, List.length_append]
  omega

theorem cons {token : Token}
    (goesOn : ∀ followed, state.outcome token followed = .goesOn next)
    (later : Passes tokens next last) : Passes (token :: tokens) state last := by
  intro rest
  rw [List.cons_append, itemFrom_cons, goesOn, Outcome.width, later, List.length_cons]
  rfl

end Passes

theorem outcome_plain {token : Token}
    (plain : ∀ sign ∈ Identifier.signs, token.is sign = false) {state : ItemState}
    (outside : state.braces = 0) (followed : Bool) :
    state.outcome token followed = .goesOn state := by
  simp [ItemState.outcome, outside, plain "(" (by decide), plain ")" (by decide),
    plain "[" (by decide), plain "]" (by decide), plain openBrace (by decide),
    plain closeBrace (by decide), plain ";" (by decide), plain "=" (by decide),
    plain "=>" (by decide)]

theorem outcome_identifier (identifier : Identifier) {state : ItemState}
    (outside : state.braces = 0) (followed : Bool) :
    state.outcome identifier.token followed = .goesOn state := by
  apply outcome_plain _ outside
  intro sign listed
  exact identifier.is_eq_false (List.mem_append_left _ listed)

theorem Passes.identifier {tokens : List Token} {parens brackets : Nat}
    {assigned : Bool} {last : ItemState} (identifier : Identifier)
    (later : Passes tokens ⟨parens, brackets, 0, assigned⟩ last) :
    Passes (identifier.token :: tokens) ⟨parens, brackets, 0, assigned⟩ last :=
  later.cons (outcome_identifier identifier rfl)

/-- An item goes on past a phrase, in the state that it had in front of it. -/
theorem passes_phrase {kind : PhraseKind} (phrase : Phrase kind) (parens brackets : Nat)
    (assigned : Bool) :
    Passes phrase.tokens ⟨parens, brackets, 0, assigned⟩
      ⟨parens, brackets, 0, assigned⟩ := by
  induction phrase generalizing parens with
  | plain name => exact .identifier name (.nil _)
  | generic name arguments ih =>
      exact .identifier name (.cons (fun _ => rfl) ((ih parens).append
        (.cons (fun _ => rfl) (.nil _))))
  | dotted qualifier name ih =>
      exact (ih parens).append (.cons (fun _ => rfl) (.identifier name (.nil _)))
  | dottedGeneric qualifier name arguments ih others =>
      exact (ih parens).append
        (.cons (fun _ => rfl)
          (.identifier name (.cons (fun _ => rfl)
            ((others parens).append (.cons (fun _ => rfl) (.nil _))))))
  | named name ih => exact ih parens
  | array element ih =>
      exact (ih parens).append (.cons (fun _ => rfl) (.cons (fun _ => rfl) (.nil _)))
  | matrix element ih =>
      exact (ih parens).append
        (.cons (fun _ => rfl) (.cons (fun _ => rfl) (.cons (fun _ => rfl) (.nil _))))
  | nullable type ih => exact (ih parens).append (.cons (fun _ => rfl) (.nil _))
  | tuple fields ih =>
      exact .cons (fun _ => rfl)
        ((ih (parens + 1)).append (.cons (fun _ => rfl) (.nil _)))
  | argument type ih => exact ih parens
  | moreArguments type arguments ih others =>
      exact (ih parens).append (.cons (fun _ => rfl) (others parens))
  | field type name ih => exact (ih parens).append (.identifier name (.nil _))
  | moreFields type name fields ih others =>
      exact (ih parens).append (.identifier name (.cons (fun _ => rfl) (others parens)))

end Span

/-! ## The reading of a member -/

namespace Member

/-- The reading of a member goes on past the tokens. -/
def Leads (form : Form) (tokens : List Token) (reading next : Reading) : Prop :=
  ∀ rest, shapeFrom form reading (tokens ++ rest) = shapeFrom form next rest

namespace Leads

variable {form : Form} {tokens more : List Token} {reading next last : Reading}

theorem nil (reading : Reading) : Leads form [] reading reading := fun _ => rfl

theorem append (first : Leads form tokens reading next)
    (second : Leads form more next last) :
    Leads form (tokens ++ more) reading last := by
  intro rest
  rw [List.append_assoc, first, second]

theorem cons {token : Token}
    (step : ∀ rest, shapeFrom form reading (token :: rest) = shapeFrom form next rest)
    (later : Leads form tokens next last) :
    Leads form (token :: tokens) reading last := by
  intro rest
  rw [List.cons_append, step, later]

end Leads

/-- An identifier outside of brackets may be the name of the member. -/
theorem shapeFrom_identifier (form : Form) (identifier : Identifier) (reading : Reading)
    (rest : List Token) : shapeFrom form reading (identifier.token :: rest)
      = shapeFrom form
          { reading with
            name := if reading.isOutside then identifier.text else reading.name
            previous := some identifier.token } rest := by
  have no {spelling : String}
      (listed : spelling ∈ Identifier.signs ++ Identifier.reserved) :=
    identifier.is_eq_false listed
  have word : identifier.token.isIdentifier = true := rfl
  rw [shapeFrom]
  simp only [@no "operator" (by decide), @no "this" (by decide), @no "<" (by decide),
    @no ">" (by decide), @no "(" (by decide), @no ")" (by decide), @no "[" (by decide),
    @no "]" (by decide), @no "," (by decide), @no ";" (by decide), @no "=" (by decide),
    @no "=>" (by decide), @no openBrace (by decide), word, Bool.false_and, Bool.or_self,
    Bool.true_and, Bool.false_eq_true, if_false]
  cases reading.isOutside with
  | true => rfl
  | false => rfl

theorem shapeFrom_greater (form : Form) (parens brackets angles : Nat) (name : Text)
    (previous : Option Token) (rest : List Token) :
    shapeFrom form ⟨parens, brackets, angles, name, previous⟩
      (Sign.greater.token :: rest)
      = shapeFrom form ⟨parens, brackets, angles - 1, name, some Sign.greater.token⟩
        rest := by
  cases angles with
  | zero => rfl
  | succ angles => rfl

theorem exists_leads_inside (form : Form) {kind : PhraseKind} (phrase : Phrase kind)
    (parens brackets angles : Nat) (name : Text) (previous : Option Token) :
    ∃ last, Leads form phrase.tokens ⟨parens + 1, brackets, angles, name, previous⟩
      ⟨parens + 1, brackets, angles - phrase.closers, name, last⟩ := by
  have word (identifier : Identifier) {parens angles : Nat} {previous : Option Token}
      {tokens : List Token} {last : Reading}
      (later : Leads form tokens
        ⟨parens + 1, brackets, angles, name, some identifier.token⟩ last) :
      Leads form (identifier.token :: tokens)
        ⟨parens + 1, brackets, angles, name, previous⟩ last :=
    later.cons (shapeFrom_identifier form identifier _)
  induction phrase generalizing parens angles previous with
  | plain identifier => exact ⟨_, word identifier (.nil _)⟩
  | generic identifier arguments ih =>
      obtain ⟨_, inner⟩ := ih parens angles (some Sign.less.token)
      exact ⟨_, word identifier (.cons (fun _ => rfl) (inner.append
        (.cons (shapeFrom_greater form _ _ _ _ _) (.nil _))))⟩
  | dotted qualifier identifier ih =>
      obtain ⟨_, front⟩ := ih parens angles previous
      exact ⟨_, front.append (.cons (fun _ => rfl) (word identifier (.nil _)))⟩
  | dottedGeneric qualifier identifier arguments ih others =>
      obtain ⟨_, front⟩ := ih parens angles previous
      obtain ⟨_, inner⟩ :=
        others parens (angles - qualifier.closers) (some Sign.less.token)
      rw [Nat.sub_sub] at inner
      exact ⟨_, front.append
        (.cons (fun _ => rfl)
          (word identifier (.cons (fun _ => rfl)
            (inner.append (.cons (shapeFrom_greater form _ _ _ _ _) (.nil _))))))⟩
  | named name ih => exact ih parens angles previous
  | array element ih =>
      obtain ⟨_, front⟩ := ih parens angles previous
      exact ⟨_, front.append (.cons (fun _ => rfl) (.cons (fun _ => rfl) (.nil _)))⟩
  | matrix element ih =>
      obtain ⟨_, front⟩ := ih parens angles previous
      exact ⟨_, front.append
        (.cons (fun _ => rfl) (.cons (fun _ => rfl) (.cons (fun _ => rfl) (.nil _))))⟩
  | nullable type ih =>
      obtain ⟨_, front⟩ := ih parens angles previous
      exact ⟨_, front.append (.cons (fun _ => rfl) (.nil _))⟩
  | tuple fields ih =>
      obtain ⟨_, inner⟩ := ih (parens + 1) angles (some Sign.openParen.token)
      exact ⟨_, .cons (fun _ => rfl) (inner.append (.cons (fun _ => rfl) (.nil _)))⟩
  | argument type ih => exact ih parens angles previous
  | moreArguments type arguments ih others =>
      obtain ⟨_, front⟩ := ih parens angles previous
      obtain ⟨_, later⟩ := others parens (angles - type.closers) (some Sign.comma.token)
      rw [Nat.sub_sub] at later
      exact ⟨_, front.append (.cons (fun _ => rfl) later)⟩
  | field type identifier ih =>
      obtain ⟨_, front⟩ := ih parens angles previous
      exact ⟨_, front.append (word identifier (.nil _))⟩
  | moreFields type identifier fields ih others =>
      obtain ⟨_, front⟩ := ih parens angles previous
      obtain ⟨_, later⟩ := others parens (angles - type.closers) (some Sign.comma.token)
      rw [Nat.sub_sub] at later
      exact ⟨_, front.append (word identifier (.cons (fun _ => rfl) later))⟩

/-- What becomes of a reading over tokens that it starts outside of parentheses: it goes
on with the given number of angle brackets open, or it ends at a comma. -/
inductive Scans (form : Form) (tokens : List Token) (reading : Reading) : Option Nat →
    Prop where
  | goesOn {angles : Nat} {name : Text} {previous : Option Token}
      (leads : Leads form tokens reading ⟨0, 0, angles, name, previous⟩) :
      Scans form tokens reading (some angles)
  | stops {name : Text}
      (ends : ∀ rest,
        shapeFrom form reading (tokens ++ rest) = (form.variableKind, name)) :
      Scans form tokens reading none

namespace Scans

variable {form : Form} {tokens more : List Token} {reading next : Reading}

theorem cons {token : Token} {after : Option Nat}
    (step : ∀ rest, shapeFrom form reading (token :: rest) = shapeFrom form next rest)
    (later : Scans form tokens next after) :
    Scans form (token :: tokens) reading after := by
  cases later with
  | goesOn leads => exact .goesOn (leads.cons step)
  | stops ends => exact .stops fun rest => (step _).trans (ends rest)

theorem append {between : Option Nat} {after : Nat → Option Nat}
    (first : Scans form tokens reading between)
    (later : ∀ angles name previous,
      Scans form more ⟨0, 0, angles, name, previous⟩ (after angles)) :
    Scans form (tokens ++ more) reading (between.bind after) := by
  cases first with
  | @goesOn angles name previous leads =>
      change Scans form (tokens ++ more) reading (after angles)
      have behind := later angles name previous
      generalize after angles = found at behind
      cases behind with
      | goesOn others => exact .goesOn (leads.append others)
      | stops ends => exact .stops fun rest => by rw [List.append_assoc, leads, ends]
  | stops ends => exact .stops fun rest => by rw [List.append_assoc, ends]

theorem append_leads {between : Option Nat} (first : Scans form tokens reading between)
    (later : ∀ angles name previous, ∃ name' previous',
      Leads form more ⟨0, 0, angles, name, previous⟩ ⟨0, 0, angles, name', previous'⟩) :
    Scans form (tokens ++ more) reading between := by
  rw [← Option.bind_fun_some between]
  refine first.append fun angles name previous => ?_
  obtain ⟨_, _, leads⟩ := later angles name previous
  exact .goesOn leads

theorem typeArguments {angles : Nat} {name : Text} {previous : Option Token}
    {after : Option Nat} (identifier : Identifier)
    (inner : ∀ name, Scans form tokens ⟨0, 0, angles + 1, name, some Sign.less.token⟩
      after) :
    Scans form (identifier.token :: Sign.less.token :: (tokens ++ [Sign.greater.token]))
      ⟨0, 0, angles, name, previous⟩ (after.map (· - 1)) := by
  rw [Option.map_eq_bind]
  refine .cons (shapeFrom_identifier form identifier _)
    (.cons (fun _ => rfl) ((inner _).append fun angles name previous => ?_))
  exact .goesOn (.cons (shapeFrom_greater form _ _ _ _ _) (.nil _))

theorem comma {angles : Nat} {name : Text} {previous : Option Token}
    {after : Option Nat}
    (later : 0 < angles →
      Scans form tokens ⟨0, 0, angles, name, some Sign.comma.token⟩ after) :
    Scans form (Sign.comma.token :: tokens) ⟨0, 0, angles, name, previous⟩
      (if angles = 0 then none else after) := by
  cases angles with
  | zero => exact .stops fun _ => rfl
  | succ angles => exact (later angles.succ_pos).cons fun _ => rfl

end Scans

/-- What becomes of a reading over a phrase that is the first of the declaration, or
among type arguments. -/
theorem scans_phrase (form : Form) {kind : PhraseKind} (phrase : Phrase kind)
    (angles : Nat) (name : Text) (previous : Option Token)
    (starts : previous = none ∨ 0 < angles) :
    Scans form phrase.tokens ⟨0, 0, angles, name, previous⟩
      (phrase.anglesAfter? angles) := by
  have word (identifier : Identifier) (angles : Nat) (name : Text)
      (previous : Option Token) :
      ∃ last, Leads form [identifier.token] ⟨0, 0, angles, name, previous⟩
        ⟨0, 0, angles, last, some identifier.token⟩ :=
    ⟨_, .cons (shapeFrom_identifier form identifier _) (.nil _)⟩
  induction phrase generalizing angles name previous with
  | plain identifier =>
      obtain ⟨_, leads⟩ := word identifier angles name previous
      exact .goesOn leads
  | generic identifier arguments ih =>
      exact .typeArguments identifier fun name => ih _ name _ (.inr angles.succ_pos)
  | dotted qualifier identifier ih =>
      refine (ih angles name previous starts).append_leads fun angles name previous =>
        ?_
      obtain ⟨_, leads⟩ := word identifier angles name (some Sign.dot.token)
      exact ⟨_, _, leads.cons fun _ => rfl⟩
  | dottedGeneric qualifier identifier arguments ih others =>
      refine (ih angles name previous starts).append fun angles name previous => ?_
      exact .cons (fun _ => rfl)
        (.typeArguments identifier fun name => others _ name _ (.inr angles.succ_pos))
  | named name ih => exact ih angles _ previous starts
  | array element ih =>
      refine (ih angles name previous starts).append_leads fun angles name previous =>
        ?_
      exact ⟨_, _, .cons (fun _ => rfl) (.cons (fun _ => rfl) (.nil _))⟩
  | matrix element ih =>
      refine (ih angles name previous starts).append_leads fun angles name previous =>
        ?_
      exact ⟨_, _, .cons (fun _ => rfl)
        (.cons (fun _ => rfl) (.cons (fun _ => rfl) (.nil _)))⟩
  | nullable type ih =>
      refine (ih angles name previous starts).append_leads fun angles name previous =>
        ?_
      exact ⟨_, _, .cons (fun _ => rfl) (.nil _)⟩
  | tuple fields ih =>
      have opens (rest : List Token) :
          shapeFrom form ⟨0, 0, angles, name, previous⟩ (Sign.openParen.token :: rest)
            = shapeFrom form ⟨1, 0, angles, name, some Sign.openParen.token⟩ rest := by
        rcases starts with rfl | inside
        · cases angles <;> rfl
        · obtain ⟨angles, rfl⟩ := Nat.exists_eq_succ_of_ne_zero inside.ne'
          rfl
      obtain ⟨_, inner⟩ :=
        exists_leads_inside form fields 0 0 angles name (some Sign.openParen.token)
      exact .goesOn (.cons opens (inner.append (.cons (fun _ => rfl) (.nil _))))
  | argument type ih => exact ih angles name previous starts
  | moreArguments type arguments ih others =>
      refine (ih angles name previous starts).append fun angles name previous => ?_
      exact .comma fun inside => others angles name _ (.inr inside)
  | field type identifier ih =>
      refine (ih angles name previous starts).append_leads fun angles name previous =>
        ?_
      obtain ⟨_, leads⟩ := word identifier angles name previous
      exact ⟨_, _, leads⟩
  | moreFields type identifier fields ih others =>
      refine (ih angles name previous starts).append fun angles name previous => ?_
      exact .cons (shapeFrom_identifier form identifier _)
        (.comma fun inside => others angles _ _ (.inr inside))

/-- What starts like a phrase is no constructor, event, delegate or destructor. -/
theorem shape_eq_shapeFrom (isConstant : Bool) {tokens : List Token}
    (starts : Phrase.Starts tokens) :
    shape isConstant tokens = shapeFrom ⟨isConstant, false, false⟩ {} tokens := by
  cases starts with
  | word identifier apart =>
      simp [shape, apart, identifier.is_eq_false (show "~" ∈ _ by decide),
        identifier.is_eq_false (show "event" ∈ _ by decide),
        identifier.is_eq_false (show "delegate" ∈ _ by decide)]
  | paren rest => rfl

end Member

end Lineup
