import Lineup.Text

/-!
# Tokens

A token is a non-empty piece of source text with its kind and its place. Trivia tokens
carry no meaning for the structure of a file; all other tokens are significant.
-/

namespace Lineup

/-- The lexical class of a token. -/
inductive TokenKind where
  | whitespace
  | newline
  | lineComment
  | blockComment
  /-- A preprocessor line such as `#if DEBUG`. -/
  | directive
  | identifier
  | number
  | string
  | character
  | punctuation
  deriving DecidableEq, Repr

/-- Whether tokens of this kind carry no meaning for the structure of a file. -/
def TokenKind.isTrivia : TokenKind → Bool
  | whitespace | newline | lineComment | blockComment | directive => true
  | identifier | number | string | character | punctuation => false

/-- A piece of source text, starting at a byte offset. -/
structure Token where
  kind : TokenKind
  text : Text
  offset : Nat
  deriving DecidableEq, Repr

/-- The brace that starts a block. -/
abbrev openBrace : String := "\x7b"

/-- The brace that ends a block. -/
abbrev closeBrace : String := "\x7d"

namespace Token

/-- The offset just past the token. -/
def stop (token : Token) : Nat :=
  token.offset + token.text.length

/-- Whether the token carries no meaning for the structure of a file. -/
def isTrivia (token : Token) : Bool :=
  token.kind.isTrivia

/-- Whether the token is significant and spelled as given. -/
def is (token : Token) (spelling : String) : Bool :=
  !token.isTrivia && token.text == utf8 spelling

/-- Whether the token is significant and has one of the given spellings. -/
def isAny (token : Token) (spellings : List String) : Bool :=
  spellings.any token.is

/-- Whether the token is an identifier, keywords included. -/
def isIdentifier (token : Token) : Bool :=
  token.kind == .identifier

/-- The source text that consecutive tokens cover. -/
def joined (tokens : List Token) : Text :=
  tokens.flatMap Token.text

/-- The source text from one token to another, with what stands between them. -/
def textBetween (source : Text) (first last : Token) : Text :=
  (source.take last.stop).drop first.offset

/-- The tokens that are not trivia. -/
def significant (tokens : List Token) : List Token :=
  tokens.filter fun token => !token.isTrivia

end Token

end Lineup
