import Lineup.Proofs.Token.Verbatim

/-!
# Literals within literals

An interpolated literal holds code in braces, the code may hold further literals, and so
on. Here is the grammar of such literals, and what the scanner does with the texts that
it describes: the content of a literal is passed over without leaving the literal, and
code is passed over without leaving its braces. So every literal is one token, however
deep the literals inside of it are nested.
-/

namespace Lineup

namespace Literal

/-- The parts that literals are made of. -/
inductive Part where
  /-- A whole literal. -/
  | literal
  /-- What stands between the quotes of a literal. -/
  | content (interpolated : Bool)
  /-- Code in braces, where a literal does not directly follow another one. -/
  | code (afterLiteral : Bool)
  deriving DecidableEq, Repr

/-- What stands in front of the quote of a literal. -/
def sign (interpolated : Bool) : Text :=
  if interpolated then [Byte.dollar] else []

/-- The bytes that do not stand for themselves in a literal, apart from the brace that
starts code. -/
def special : List UInt8 :=
  [Byte.quote, Byte.backslash, Byte.carriageReturn, Byte.lineFeed]

/-- The bytes that do not stand for themselves in code. -/
def codeSpecial : List UInt8 :=
  [Byte.openBrace, Byte.closeBrace, Byte.quote, Byte.apostrophe, Byte.dollar,
    Byte.atSign, Byte.slash]

/-- How the parts of literals are written. -/
inductive Written : Part → Text → Prop where
  | literal {interpolated : Bool} {content : Text}
        (inner : Written (.content interpolated) content) :
      Written .literal (sign interpolated ++ Byte.quote :: (content ++ [Byte.quote]))
  | contentEnd (interpolated : Bool) : Written (.content interpolated) []
  | byte {interpolated : Bool} {content : Text} {byte : UInt8} (plain : byte ∉ special)
      (apart : interpolated = true → byte ≠ Byte.openBrace)
      (rest : Written (.content interpolated) content) :
      Written (.content interpolated) (byte :: content)
  | escape {interpolated : Bool} {content : Text} (byte : UInt8)
      (rest : Written (.content interpolated) content) :
      Written (.content interpolated) (Byte.backslash :: byte :: content)
  | doubledBrace {content : Text} (rest : Written (.content true) content) :
      Written (.content true) (Byte.openBrace :: Byte.openBrace :: content)
  | hole {code content : Text} (inner : Written (.code false) code)
      (apart : code.head? ≠ some Byte.openBrace)
        (rest : Written (.content true) content) :
      Written (.content true) (Byte.openBrace :: (code ++ Byte.closeBrace :: content))
  | codeEnd (afterLiteral : Bool) : Written (.code afterLiteral) []
  | codeByte {afterLiteral : Bool} {code : Text} {byte : UInt8}
        (plain : byte ∉ codeSpecial)
      (rest : Written (.code false) code) : Written (.code afterLiteral) (byte :: code)
  | block {afterLiteral : Bool} {code rest : Text} (inner : Written (.code false) code)
      (later : Written (.code false) rest) :
      Written (.code afterLiteral) (Byte.openBrace :: (code ++ Byte.closeBrace :: rest))
  | nested {literal code : Text} (inner : Written .literal literal)
      (rest : Written (.code true) code) : Written (.code false) (literal ++ code)

theorem Written.head?_ne_quote {part : Part} {text : Text} (written : Written part text)
    (starts : part ≠ .literal ∧ part ≠ .code false) : text.head? ≠ some Byte.quote := by
  cases written with
  | literal => exact absurd rfl starts.1
  | contentEnd => exact nofun
  | byte plain => exact fun quote => plain (by simp [special, Option.some.inj quote])
  | escape => exact nofun
  | doubledBrace => exact nofun
  | hole => exact nofun
  | codeEnd => exact nofun
  | codeByte plain =>
      exact fun quote => plain (by simp [codeSpecial, Option.some.inj quote])
  | block => exact nofun
  | nested => exact absurd rfl starts.2

theorem Written.head?_content_ne_quote {interpolated : Bool} {content : Text}
    (written : Written (.content interpolated) content) :
    content.head? ≠ some Byte.quote :=
  written.head?_ne_quote ⟨nofun, nofun⟩

theorem Written.head?_code_ne_quote {code : Text}
    (written : Written (.code true) code) :
    code.head? ≠ some Byte.quote :=
  written.head?_ne_quote ⟨nofun, nofun⟩

theorem head?_closeBrace_ne_quote (rest : Text) :
    (Byte.closeBrace :: rest).head? ≠ some Byte.quote :=
  nofun

/-- The scanner passes over the text in front of `rest` and is in the same construct
then. -/
def Passes (inner : Enclosure) (text rest : Text) : Prop :=
  ∀ outer position, reach (inner :: outer) (text ++ rest) position
    = reach (inner :: outer) rest (position + text.length)

theorem reach_content {interpolated : Bool} {content rest : Text}
    (passes : Passes (.quoted false interpolated) content (Byte.quote :: rest))
    (starts : content.head? ≠ some Byte.quote) (apart : rest.head? ≠ some Byte.quote)
    (outer : List Enclosure) (position : Nat) :
    reach (openQuote false interpolated (content ++ Byte.quote :: rest) ++ outer)
        (content ++ Byte.quote :: rest) position
      = reach outer rest (position + (content ++ [Byte.quote]).length) := by
  rw [openQuote_single starts apart, List.length_append, List.length_singleton,
    ← Nat.add_assoc]
  exact passes outer position

namespace Passes

variable {inner : Enclosure} {rest : Text}

theorem nil (inner : Enclosure) (rest : Text) : Passes inner [] rest := fun _ _ => rfl

theorem append {text more : Text} (first : Passes inner text (more ++ rest))
    (second : Passes inner more rest) : Passes inner (text ++ more) rest := by
  intro outer position
  rw [List.append_assoc, first, second, List.length_append, Nat.add_assoc]

theorem single {byte : UInt8} (stays : inner.endsBefore byte = false)
    (same : inner.advance byte rest = [inner]) : Passes inner [byte] rest := by
  intro outer position
  rw [List.singleton_append, reach, stays, if_neg Bool.false_ne_true, same]
  rfl

/-- A byte behind which something starts that ends with the text. -/
theorem enter {byte : UInt8} {text : Text} (stays : inner.endsBefore byte = false)
    (opened : ∀ outer position, reach (inner.advance byte (text ++ rest) ++ outer)
      (text ++ rest) position = reach (inner :: outer) rest (position + text.length)) :
    Passes inner (byte :: text) rest := by
  intro outer position
  rw [List.cons_append, reach, stays, if_neg Bool.false_ne_true, opened,
    List.length_cons, Nat.add_assoc, Nat.add_comm 1]

theorem block {depth : Nat} {code : Text}
    (passes : Passes (.hole (depth + 1)) code (Byte.closeBrace :: rest)) :
    Passes (.hole depth) (Byte.openBrace :: (code ++ [Byte.closeBrace])) rest := by
  refine .enter rfl fun outer position => ?_
  rw [List.append_assoc, List.singleton_append, List.length_append,
    List.length_singleton, ← Nat.add_assoc]
  exact passes outer position

theorem hole {code : Text} (apart : code.head? ≠ some Byte.openBrace)
    (passes : Passes (.hole 0) code (Byte.closeBrace :: rest)) :
    Passes (.quoted false true) (Byte.openBrace :: (code ++ [Byte.closeBrace]))
      rest := by
  refine .enter rfl fun outer position => ?_
  have starts : (code ++ Byte.closeBrace :: rest).head? ≠ some Byte.openBrace := by
    cases code with
    | nil => exact nofun
    | cons byte code => exact apart
  have opened : (Enclosure.quoted false true).advance Byte.openBrace
      (code ++ Byte.closeBrace :: rest)
      = [.hole 0, .quoted false true] := if_neg (by simpa using starts)
  rw [List.append_assoc, List.singleton_append, opened, List.length_append,
    List.length_singleton, ← Nat.add_assoc]
  exact passes _ position

theorem literal {depth : Nat} {interpolated : Bool} {content : Text}
    (passes : Passes (.quoted false interpolated) content (Byte.quote :: rest))
    (starts : content.head? ≠ some Byte.quote) (apart : rest.head? ≠ some Byte.quote) :
    Passes (.hole depth) (sign interpolated ++ Byte.quote :: (content ++ [Byte.quote]))
      rest := by
  have ends := reach_content passes starts apart
  cases interpolated with
  | false =>
      refine .enter rfl fun outer position => ?_
      rw [List.append_assoc, List.singleton_append]
      change reach (openQuote false false _ ++ [.hole depth] ++ outer) _ position = _
      rw [List.append_assoc, ends]
      rfl
  | true =>
      refine .enter rfl fun outer position => ?_
      change reach (openQuote false true (content ++ [Byte.quote] ++ rest)
          ++ .hole depth :: outer)
        (content ++ [Byte.quote] ++ rest) (position + 1)
          = reach _ rest (position + (Byte.quote :: (content ++ [Byte.quote])).length)
      rw [List.append_assoc, List.singleton_append, ends, List.length_cons,
        Nat.add_assoc, Nat.add_comm 1]

end Passes

/-- What a part is to the scanner: a content is passed over within the quotes, and code
and the literals in it are passed over within the braces, where anything but a quote
follows. -/
def Passed : Part → Text → Prop
  | .content interpolated, text => ∀ rest, Passes (.quoted false interpolated) text rest
  | _, text =>
      ∀ depth rest, rest.head? ≠ some Byte.quote → Passes (.hole depth) text rest

/-- Parts of literals are passed over. -/
theorem Written.passed {part : Part} {text : Text} (written : Written part text) :
    Passed part text := by
  induction written with
  | literal inner passed =>
      intro depth rest apart
      exact .literal (passed _) inner.head?_content_ne_quote apart
  | contentEnd interpolated => exact .nil _
  | @byte interpolated content byte plain apart rest passed =>
      intro behind
      simp only [special, List.mem_cons, List.not_mem_nil, or_false, not_or] at plain
      obtain ⟨quote, backslash, carriageReturn, lineFeed⟩ := plain
      have brace : (byte == Byte.openBrace && interpolated) = false := by
        cases interpolated with
        | false => exact Bool.and_false _
        | true => simpa using apart rfl
      refine .append (.single ?_ ?_) (passed behind)
      · simp [Enclosure.endsBefore, Byte.isLineEnd, carriageReturn, lineFeed]
      · simp [Enclosure.advance, quote, backslash, brace]
  | @escape interpolated content byte rest passed =>
      intro behind
      have pair : Passes (.quoted false interpolated) [Byte.backslash, byte]
          (content ++ behind) :=
        .enter rfl fun _ _ => rfl
      exact pair.append (passed behind)
  | @doubledBrace content rest passed =>
      intro behind
      have pair : Passes (.quoted false true) [Byte.openBrace, Byte.openBrace]
          (content ++ behind) :=
        .enter rfl fun _ _ => rfl
      exact pair.append (passed behind)
  | @hole code content inner apart rest within later =>
      intro behind
      have braces := Passes.hole apart
        (within 0 _ (head?_closeBrace_ne_quote (content ++ behind)))
      have all := braces.append (later behind)
      rwa [List.cons_append, List.append_assoc, List.singleton_append] at all
  | codeEnd afterLiteral => exact fun depth rest _ => .nil _ rest
  | @codeByte afterLiteral code byte plain rest passed =>
      intro depth behind apart
      simp only [codeSpecial, List.mem_cons, List.not_mem_nil, or_false,
        not_or] at plain
      obtain ⟨openBrace, closeBrace, quote, apostrophe, dollar, atSign, slash⟩ := plain
      refine .append (.single rfl ?_) (passed depth behind apart)
      simp [Enclosure.advance, openBrace, closeBrace, quote, apostrophe, dollar, atSign,
        slash]
  | @block afterLiteral code rest inner later within after =>
      intro depth behind apart
      have braces := Passes.block
        (within (depth + 1) _ (head?_closeBrace_ne_quote (rest ++ behind)))
      have all := braces.append (after depth behind apart)
      rwa [List.cons_append, List.append_assoc, List.singleton_append] at all
  | @nested literal code inner rest within after =>
      intro depth behind apart
      refine .append (within depth (code ++ behind) ?_) (after depth behind apart)
      -- Behind a literal, neither the code nor what follows it starts with a quote.
      cases code with
      | nil => exact apart
      | cons byte code => exact rest.head?_code_ne_quote

end Literal

namespace Token

open Literal (Written reach_content)

theorem head?_lex {byte : UInt8} {text rest : Text} {kind : TokenKind}
    (reads : Reads true byte (text ++ rest) kind text.length) :
    (lex (byte :: text ++ rest)).head? = some ⟨kind, byte :: text, 0⟩ := by
  rw [List.cons_append, lex, lexFrom_cons reads, List.take_left, List.head?_cons]

/-- A literal is the first token where anything but a quote follows it, with all the
literals inside of it. -/
theorem head?_lex_literal {text rest : Text} (written : Written .literal text)
    (apart : rest.head? ≠ some Byte.quote) :
    (lex (text ++ rest)).head? = some ⟨.string, text, 0⟩ := by
  cases written with
  | @literal interpolated content inner =>
      have ends := reach_content (inner.passed (Byte.quote :: rest))
        inner.head?_content_ne_quote apart []
      have behind : content ++ Byte.quote :: rest
          = content ++ [Byte.quote] ++ rest := by
        rw [List.append_assoc, List.singleton_append]
      simp only [List.append_nil, Literal.reach, behind] at ends
      cases interpolated with
      | false =>
          have reads : Reads true Byte.quote (content ++ [Byte.quote] ++ rest) .string
              _ := .quoted rfl
          rw [Literal.width, ends, Nat.zero_add] at reads
          exact head?_lex reads
      | true =>
          have reads : Reads true Byte.dollar
              (Byte.quote :: (content ++ [Byte.quote]) ++ rest) .string _ :=
            .interpolated rfl rfl
          have width : Literal.width [.opening false true]
              (Byte.quote :: (content ++ [Byte.quote]) ++ rest)
              = (Byte.quote :: (content ++ [Byte.quote])).length := by
            change Literal.reach
                (Literal.openQuote false true (content ++ [Byte.quote] ++ rest) ++ [])
              (content ++ [Byte.quote] ++ rest) 1 = _
            rw [List.append_nil, ends, List.length_cons, Nat.add_comm]
          rw [width] at reads
          exact head?_lex reads

/-- Doubled braces, and a literal in a literal in a literal. -/
theorem head?_lex_literal_nested :
    let text := utf8 "$\"\x7b\x7b\x7b$\"\x7b\"\x7d\\\"\"\x7d\"\x7d\""
    let rest := utf8 ";"
    Written .literal text ∧ rest.head? ≠ some Byte.quote
      ∧ (lex (text ++ rest)).head? = some ⟨.string, text, 0⟩ := by
  intro text rest
  have innermost : Written (.content false)
      [Byte.closeBrace, Byte.backslash, Byte.quote] :=
    .byte (by decide) nofun (.escape Byte.quote (.contentEnd false))
  have inner : Written (.content true) _ :=
    .hole (.nested (.literal innermost) (.codeEnd true)) nofun (.contentEnd true)
  have written : Written .literal _ :=
    .literal (.doubledBrace
      (.hole (.nested (.literal inner) (.codeEnd true)) nofun (.contentEnd true)))
  have apart : rest.head? ≠ some Byte.quote := by decide
  exact ⟨written, apart, head?_lex_literal written apart⟩

end Token

end Lineup
