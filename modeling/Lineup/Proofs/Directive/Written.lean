import Lineup.Directive
import Lineup.Proofs.Member.Types

/-!
# Using directives as they are written

A using directive is written with one blank behind each of its words and behind the
equals sign of an alias, and without blanks in its target. Its names are any texts that
are one identifier. Such a directive is read as the same tokens in front of every text,
so the tokens of directives that stand line by line are those of each directive, with a
line end between each two of them.
-/

namespace Lineup

/-- A text that is one identifier. -/
structure Name where
  text : Text
  lexed : Token.lex text = [⟨.identifier, text, 0⟩] := by decide +kernel

namespace Name

/-- The name as a token. -/
def token (name : Name) : Token :=
  ⟨.identifier, name.text, 0⟩

theorem is_eq_false (name : Name) :
    ∀ sign ∈ Identifier.signs, name.token.is sign = false := by
  intro sign listed
  exact Identifier.is_sign_eq_false name.lexed listed

theorem isRead (name : Name) {byte : UInt8} (ends : Byte.EndsName byte)
    (lineStart : Bool) (rest : Text) :
    Token.IsRead lineStart name.token (byte :: rest) := by
  have run := Token.run_lexFrom true 0 name.text
  change Token.Run true (Token.lex name.text) [] at run
  rw [name.lexed] at run
  exact Token.isRead_identifier run.1 rfl ends lineStart rest

end Name

/-- A using directive as it is written. -/
structure UsingDirective where
  isGlobal : Bool
  isStatic : Bool
  aliasName : Option Name
  first : Name
  rest : List Name
  /-- The word `static` always says that the directive is static. -/
  plain : isStatic = false → (aliasName.getD first).text ≠ utf8 "static"

namespace UsingDirective

/-- What the directive imports. -/
def target (directive : UsingDirective) : Text :=
  Text.join [Byte.dot] ((directive.first :: directive.rest).map Name.text)

/-- The text of the directive. -/
def text (directive : UsingDirective) : Text :=
  (if directive.isGlobal then utf8 "global " else []) ++ utf8 "using "
    ++ (if directive.isStatic then utf8 "static " else [])
    ++ (match directive.aliasName with
      | some name => name.text ++ utf8 " = "
      | none => [])
    ++ directive.target ++ utf8 ";"

/-- The text of directives line by line. -/
def lines (directives : List UsingDirective) : Text :=
  Text.join [Byte.lineFeed] (directives.map text)

/-- What decides the place of the directive. -/
def info (directive : UsingDirective) : DirectiveInfo where
  target := directive.target
  aliasName := (directive.aliasName.map Name.text).getD []
  isStatic := directive.isStatic
  isGlobal := directive.isGlobal

/-! ## Tokens -/

/-- A keyword as a token. -/
def keyword (spelling : String) : Token :=
  ⟨.identifier, utf8 spelling, 0⟩

/-- A sign as a token. -/
def sign (byte : UInt8) : Token :=
  ⟨.punctuation, [byte], 0⟩

/-- The semicolon at the end of a directive. -/
def semicolon : Token := sign 0x3b

/-- A blank as a token. -/
def blank : Token :=
  ⟨.whitespace, [Byte.space], 0⟩

/-- A line end as a token. -/
def newline : Token :=
  ⟨.newline, [Byte.lineFeed], 0⟩

/-- The alias and its equals sign. -/
def aliasWords (directive : UsingDirective) : List Token :=
  match directive.aliasName with
  | some name => [name.token, sign Byte.equals]
  | none => []

/-- The words in front of the target. -/
def words (directive : UsingDirective) : List Token :=
  (if directive.isGlobal then [keyword "global"] else []) ++ keyword "using"
    :: ((if directive.isStatic then [keyword "static"] else []) ++ directive.aliasWords)

/-- The tokens of the target. -/
def path (directive : UsingDirective) : List Token :=
  directive.first.token :: directive.rest.flatMap fun name =>
    [sign Byte.dot, name.token]

/-- Words with a blank behind each of them. -/
def spaced (words : List Token) : List Token :=
  words.flatMap fun word => [word, blank]

/-- The tokens of the directive, without their places. -/
def tokens (directive : UsingDirective) : List Token :=
  spaced directive.words ++ (directive.path ++ [semicolon])

/-- The tokens of directives line by line. -/
def lineTokens : List UsingDirective → List Token
  | [] => []
  | [directive] => directive.tokens
  | directive :: next :: directives =>
      directive.tokens ++ newline :: lineTokens (next :: directives)

theorem joined_path (directive : UsingDirective) :
    Token.joined directive.path = directive.target := by
  rw [path, target]
  generalize directive.first = first
  induction directive.rest generalizing first with
  | nil => simp [Text.join, Name.token]
  | cons second rest ih =>
      have later := ih second
      simp only [Token.joined_cons] at later
      simp only [List.flatMap_cons, Token.joined_cons, List.cons_append,
        List.nil_append, later, List.map_cons, Text.join, List.append_assoc]
      rfl

/-- The tokens of a directive spell its text. -/
theorem joined_tokens (directive : UsingDirective) :
    Token.joined directive.tokens = directive.text := by
  have spelled : utf8 "global " = utf8 "global" ++ [Byte.space]
      ∧ utf8 "using " = utf8 "using" ++ [Byte.space]
      ∧ utf8 "static " = utf8 "static" ++ [Byte.space]
      ∧ utf8 " = " = [Byte.space, Byte.equals, Byte.space] ∧ utf8 ";" = [0x3b] := by
        decide +kernel
  rw [tokens, Token.joined_append, Token.joined_append, joined_path, text, words,
    aliasWords]
  cases directive.isGlobal <;> cases directive.isStatic <;> cases directive.aliasName <;>
    simp [spaced, keyword, sign, blank, semicolon, Name.token, spelled]

theorem joined_lineTokens (directives : List UsingDirective) :
    Token.joined (lineTokens directives) = lines directives := by
  induction directives with
  | nil => rfl
  | cons directive directives ih =>
      cases directives with
      | nil => exact directive.joined_tokens
      | cons next directives =>
          rw [lineTokens, Token.joined_append, Token.joined_cons, ih, joined_tokens]
          simp [lines, Text.join, newline]

end UsingDirective

/-! ## Reading -/

namespace Token

/-- The token is significant, and it is read in front of every blank. -/
structure Spoken (token : Token) : Prop where
  solid : token.isTrivia = false
  reads : ∀ lineStart rest, IsRead lineStart token (Byte.space :: rest)

/-- The tokens start with a significant one, and they are read in front of the text. -/
structure Sound (tokens : List Token) (behind : Text) : Prop where
  solid : ∃ first ∈ tokens.head?, first.isTrivia = false
  reads : ∀ lineStart, Run lineStart tokens behind

theorem IsRead.not_space {lineStart : Bool} {token : Token} {behind : Text}
    (read : IsRead lineStart token behind) (solid : token.isTrivia = false) :
    ∀ byte ∈ token.text.head?, Byte.isInlineSpace byte = false := by
  intro byte starts
  cases read with
  | @intro first more spelled reads =>
      rw [spelled, List.head?_cons, Option.mem_some_iff] at starts
      subst starts
      by_contra space
      have blank : Reads lineStart first (more ++ behind) .whitespace _ :=
        .space (Bool.ne_false_iff.mp space)
      have same : token.kind = .whitespace :=
        congrArg Prod.fst (reads.first_eq.symm.trans blank.first_eq)
      rw [isTrivia, same] at solid
      cases solid

theorem isRead_blank (lineStart : Bool) {behind : Text}
    (starts : ∀ byte ∈ behind.head?, Byte.isInlineSpace byte = false) :
    IsRead lineStart UsingDirective.blank behind := by
  have reads : Reads lineStart Byte.space ([] ++ behind) .whitespace _ := .space rfl
  have empty : (([] : Text) ++ behind).takeWhile Byte.isInlineSpace = [] := by
    cases behind with
    | nil => rfl
    | cons byte behind => exact List.takeWhile_cons_of_neg (by simp [starts byte rfl])
  rw [empty] at reads
  exact .intro rfl reads

namespace Sound

variable {tokens : List Token} {behind : Text}

theorem not_space (sound : Sound tokens behind) :
    ∀ byte ∈ (joined tokens ++ behind).head?, Byte.isInlineSpace byte = false := by
  obtain ⟨first, starts, solid⟩ := sound.solid
  have run := sound.reads true
  cases tokens with
  | nil => cases starts
  | cons token tokens =>
      cases starts
      rw [joined_cons, List.append_assoc,
        List.head?_append_of_ne_nil _ run.1.text_ne_nil]
      exact run.1.not_space solid

/-- Words can stand in front, with a blank behind each of them. -/
theorem words (sound : Sound tokens behind) {words : List Token}
    (spoken : ∀ word ∈ words, Spoken word) :
    Sound (UsingDirective.spaced words ++ tokens) behind := by
  induction words with
  | nil => exact sound
  | cons word words ih =>
      rw [List.forall_mem_cons] at spoken
      have later := ih spoken.2
      constructor
      · exact ⟨word, rfl, spoken.1.solid⟩
      · intro lineStart
        refine ⟨spoken.1.reads lineStart _, isRead_blank _ later.not_space,
          later.reads _⟩

end Sound

theorem isRead_sign {byte : UInt8} (alone : ∀ pair ∈ pairs, pair.head? ≠ some byte)
    (ascii : byte < 0x80)
    (other : Letter.startsIdentifier (Char.ofNat byte.toNat) = false)
    (plain : ∀ lineStart rest,
      first lineStart byte rest
        = if Letter.startsIdentifier (Utf8.read byte rest).1 then
            (.identifier, identifierWidth (Utf8.read byte rest).2 rest)
          else (.punctuation, punctuationWidth byte rest))
    (lineStart : Bool) (behind : Text) :
    IsRead lineStart (UsingDirective.sign byte) behind :=
  .intro rfl (reads_single alone ascii other (plain lineStart behind))

end Token

namespace UsingDirective

open Token (IsRead Run Sound Spoken)

theorem isRead_dot (lineStart : Bool) (behind : Text) :
    IsRead lineStart (sign Byte.dot) behind :=
  Token.isRead_sign (by decide +kernel) (by decide) (by decide +kernel)
    (fun _ _ => rfl) lineStart behind

theorem isRead_semicolon (lineStart : Bool) (behind : Text) :
    IsRead lineStart semicolon behind :=
  Token.isRead_sign (by decide +kernel) (by decide) (by decide +kernel)
    (fun _ _ => rfl) lineStart behind

theorem sound_path (directive : UsingDirective) (behind : Text) :
    Sound (directive.path ++ [semicolon]) behind := by
  have dot : Byte.EndsName Byte.dot :=
    ⟨by decide, by decide, by decide, by decide +kernel⟩
  have end_ : Byte.EndsName 0x3b := ⟨by decide, by decide, by decide, by decide +kernel⟩
  refine ⟨⟨directive.first.token, rfl, rfl⟩, ?_⟩
  rw [path]
  generalize directive.first = first
  induction directive.rest generalizing first with
  | nil =>
      intro lineStart
      exact ⟨first.isRead end_ lineStart _, isRead_semicolon _ _, trivial⟩
  | cons second rest ih =>
      intro lineStart
      exact ⟨first.isRead dot lineStart _, isRead_dot _ _, ih second _⟩

theorem spoken_keyword {spelling : String}
    (lexed : Token.lex (utf8 spelling) = [⟨.identifier, utf8 spelling, 0⟩]) :
    Spoken (keyword spelling) :=
  ⟨rfl, (Name.mk (utf8 spelling) lexed).isRead (Byte.isSeparator.endsName rfl)⟩

theorem spoken_equals : Spoken (sign Byte.equals) := by
  constructor
  · rfl
  · intro lineStart rest
    have run := @Token.run_of_isFixed [Byte.equals]
      (by decide +kernel) lineStart Byte.space rest rfl
    have lexed : Token.lex [Byte.equals] = [sign Byte.equals] := by decide +kernel
    rw [lexed] at run
    exact run.1

/-- The words in front of the target are read in front of blanks. -/
theorem spoken_words (directive : UsingDirective) :
    ∀ word ∈ directive.words, Spoken word := by
  have optional {asked : Bool} {spelling : String}
      (spoken : Spoken (keyword spelling)) :
      ∀ word ∈ (if asked then [keyword spelling] else []), Spoken word := by
    cases asked with
    | false => exact nofun
    | true => exact List.forall_mem_singleton.mpr spoken
  have aliased : ∀ word ∈ directive.aliasWords, Spoken word := by
    rw [aliasWords]
    cases directive.aliasName with
    | none => exact nofun
    | some name =>
        rw [List.forall_mem_cons, List.forall_mem_singleton]
        exact ⟨⟨rfl, name.isRead (Byte.isSeparator.endsName rfl)⟩, spoken_equals⟩
  rw [words, List.forall_mem_append, List.forall_mem_cons, List.forall_mem_append]
  exact ⟨optional (spoken_keyword (by decide +kernel)),
    spoken_keyword (by decide +kernel), optional (spoken_keyword (by decide +kernel)),
    aliased⟩

/-- A directive is read in front of everything. -/
theorem sound_tokens (directive : UsingDirective) (behind : Text) :
    Sound directive.tokens behind :=
  (directive.sound_path behind).words directive.spoken_words

theorem run_lineTokens (directives : List UsingDirective) (lineStart : Bool) :
    Run lineStart (lineTokens directives) [] := by
  induction directives generalizing lineStart with
  | nil => trivial
  | cons directive directives ih =>
      cases directives with
      | nil => exact (directive.sound_tokens []).reads lineStart
      | cons next directives =>
          rw [lineTokens, Token.run_append]
          exact ⟨(directive.sound_tokens _).reads lineStart,
            .intro rfl (.lineFeed rfl), ih _⟩

/-- The tokens of directives that stand line by line. -/
theorem lex_lines (directives : List UsingDirective) :
    Token.lex (lines directives) = Token.place 0 (lineTokens directives) := by
  have found := Token.lexFrom_run (run_lineTokens directives true) 0
  rwa [List.append_nil, Token.lexFrom_nil, List.append_nil, joined_lineTokens] at found

end UsingDirective

end Lineup
