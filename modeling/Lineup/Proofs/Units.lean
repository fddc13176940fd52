import Lineup.Proofs.Nesting
import Lineup.Proofs.Syntax.Ended
import Lineup.Proofs.Syntax.Ownership
import Lineup.Proofs.Syntax.Transplant

/-!
# Members as units

The members of a class are written one below the other. A source that is found as one
member in front of a field is found as one member among all others of its sort, made of
its own significant tokens, so such members can be written in any order.
-/

namespace Lineup

namespace Token

/-- The kinds of brackets. -/
inductive Bracket where
  | round
  | square
  | curly
  deriving DecidableEq, Repr

/-- What the brackets open and close. -/
def brackets : List (String × Mark Bracket) :=
  [("(", .opens .round), (")", .closes .round), ("[", .opens .square),
    ("]", .closes .square), (openBrace, .opens .curly), (closeBrace, .closes .curly)]

/-- What the token opens or closes, if it is a bracket. -/
def bracket? (token : Token) : Option (Mark Bracket) :=
  (brackets.find? fun entry => token.is entry.1).map Prod.snd

theorem bracket?_eq_some_iff {token : Token} {spelling : String} {mark : Mark Bracket}
    (listed : (spelling, mark) ∈ brackets) :
    token.bracket? = some mark ↔ token.is spelling = true := by
  have marked : ∀ first ∈ brackets, ∀ second ∈ brackets, first.2 = second.2 →
      first = second := by
    decide
  have spelled : ∀ first ∈ brackets, ∀ second ∈ brackets, utf8 first.1 = utf8 second.1 →
      first = second := by decide
  constructor
  · intro same
    obtain ⟨other, found, is⟩ := Option.map_eq_some_iff.mp same
    have first := List.find?_some found
    rwa [marked other (List.mem_of_find?_eq_some found) _ listed is] at first
  · intro is
    have present : (brackets.find? fun entry => token.is entry.1).isSome = true :=
      List.find?_isSome.mpr ⟨_, listed, is⟩
    obtain ⟨other, found⟩ := Option.isSome_iff_exists.mp present
    have both : utf8 other.1 = utf8 spelling := by
      by_contra apart
      have first := List.find?_some found
      have no := is_of_is first apart
      rw [is] at no
      cases no
    rw [bracket?, found, spelled other (List.mem_of_find?_eq_some found) _ listed both]
    rfl

theorem count_brackets_cons {spelling : String} {mark : Mark Bracket}
    (listed : (spelling, mark) ∈ brackets) (token : Token) (rest : List Token) :
    ((token :: rest).filterMap bracket?).count mark
      = (rest.filterMap bracket?).count mark + if token.is spelling then 1 else 0 := by
  rw [if_congr (bracket?_eq_some_iff listed).symm rfl rfl, List.filterMap_cons]
  cases token.bracket? with
  | none => simp
  | some other => simp [List.count_cons]

theorem brackets_gist (tokens : List Token) :
    (gist tokens).filterMap bracket? = tokens.filterMap bracket? := by
  rw [gist, significant, List.filterMap_map, List.filterMap_filter]
  apply List.filterMap_congr
  intro token member
  cases ignored : token.isTrivia with
  | false => simp [bracket?]
  | true =>
      have plain : token.bracket? = none := by
        rw [bracket?, Option.map_eq_none_iff, List.find?_eq_none]
        simp [is_trivia ignored]
      simp [plain]

/-- The significant tokens of a text without their places. -/
def gistOf (source : Text) : List Token :=
  gist (lex source)

/-- Split the tokens where the given number of bytes is covered. -/
def cover (size : Nat) : List Token → List Token × List Token
  | [] => ([], [])
  | token :: rest =>
      if size = 0 then ([], token :: rest)
      else
        let (front, back) := cover (size - token.text.length) rest
        (token :: front, back)

theorem cover_joined {tokens : List Token} (spelled : ∀ token ∈ tokens, token.text ≠ [])
    (rest : List Token) :
    cover (joined tokens).length (tokens ++ rest) = (tokens, rest) := by
  induction tokens with
  | nil => cases rest <;> rfl
  | cons token tokens ih =>
      have present : token.text.length ≠ 0 := by
        simpa using spelled token List.mem_cons_self
      have later := ih fun other member => spelled other (List.mem_cons_of_mem _ member)
      rw [List.cons_append, cover, joined_cons, List.length_append, if_neg (by omega),
        Nat.add_sub_cancel_left, later]

end Token

namespace Parser

open Token (Bracket bracket? count_brackets_cons)
open Lineup.Span (Stops skipAttributes)

theorem lt_of_skipAttributes {depth : Nat} {tokens : List Token} (stops : Stops tokens)
    (unclosed : skipAttributes depth tokens = []) :
    (tokens.filterMap bracket?).count (.closes .square)
      < depth + (tokens.filterMap bracket?).count (.opens .square) := by
  have opening : ("[", Mark.opens Bracket.square) ∈ Token.brackets := by decide
  have closing : ("]", Mark.closes Bracket.square) ∈ Token.brackets := by decide
  induction tokens generalizing depth with
  | nil => exact absurd rfl stops.ne_nil
  | cons token rest ih =>
      rw [count_brackets_cons opening, count_brackets_cons closing]
      have plain (spelling : String) (is : token.is spelling = true)
          (apart : ∀ other ∈ [openBrace, ";", closeBrace], utf8 other ≠ utf8 spelling) :
          Span.isBoundary token = false := by
        by_contra boundary
        rw [Span.is_of_isBoundary (Bool.not_eq_false _ ▸ boundary) spelling apart] at is
        cases is
      simp only [skipAttributes] at unclosed
      cases opens : token.is "[" with
      | true =>
          rw [opens, if_pos rfl] at unclosed
          have counts := ih (stops.tail (plain "[" opens (by decide))) unclosed
          rw [Token.is_of_is opens (by decide), if_pos rfl, if_neg Bool.false_ne_true]
          omega
      | false =>
          rw [opens, if_neg Bool.false_ne_true] at unclosed
          by_cases outside : depth = 0
          · rw [if_pos outside] at unclosed
            cases unclosed
          rw [if_neg outside] at unclosed
          cases closes : token.is "]" with
          | true =>
              rw [closes, if_pos rfl] at unclosed
              have counts := ih (stops.tail (plain "]" closes (by decide))) unclosed
              rw [if_pos rfl, if_neg Bool.false_ne_true]
              omega
          | false =>
              rw [closes, if_neg Bool.false_ne_true] at unclosed
              rw [if_neg Bool.false_ne_true]
              cases rest with
              | nil => simpa using Nat.pos_of_ne_zero outside
              | cons next rest =>
                  exact ih (stops.suffix (List.suffix_cons _ _) (List.cons_ne_nil _ _))
                    unclosed

theorem sound_of_nested {tokens : List Token} (stops : Stops tokens)
    (nested : Mark.Nested (tokens.filterMap bracket?)) : Sound tokens := by
  intro part ending present
  refine ⟨stops.suffix ending present, fun unclosed => ?_⟩
  have more := lt_of_skipAttributes (stops.suffix ending present) unclosed
  have counts := nested.count_le (ending.filterMap bracket?) .square
  omega

end Parser

/-- Deal the tokens out to consecutive nodes, to each as many as it prints. -/
def Node.deal : List Node → List Token → List (List Token)
  | [], _ => []
  | node :: nodes, tokens =>
      let (own, rest) := Token.cover node.print.length tokens
      own :: deal nodes rest

/-- The tokens of each member of the class that a text starts with. -/
def Tree.units? (source : Text) : Option (List (List Token)) :=
  match (Tree.parse source).top.children with
  | .mk info (.text header :: .list .members members :: _) :: _ =>
      some (Node.deal members
        (Token.cover (info.leading ++ header).length (Token.lex source)).2)
  | _ => none

/-- The text of a class with the given members. -/
def classText (sources : List Text) : Text :=
  utf8 "class C \x7b\n" ++ List.intercalate [Byte.lineFeed] sources ++ utf8 "\n\x7d\n"

namespace Parser

open Token (gist)

theorem Parsed.print {scope : Scope} {node : Node} {tokens rest : List Token}
    (parsed : Parsed scope [node] tokens rest) : node.print = Token.joined tokens := by
  simpa using parsed.printAll

theorem deal_cons {node : Node} {own : List Token}
    (spelled : ∀ token ∈ own, token.text ≠ []) (print : node.print = Token.joined own)
    (nodes : List Node) (tokens : List Token) :
    Node.deal (node :: nodes) (own ++ tokens) = own :: Node.deal nodes tokens := by
  rw [Node.deal, print, Token.cover_joined spelled]

/-- Aligned nodes are dealt the same significant tokens. -/
theorem Aligned.deal {nodes nodes' : List Node} {tokens tokens' : List Token}
    (aligned : Aligned nodes tokens nodes' tokens')
    (spelled : ∀ token ∈ tokens, token.text ≠ [])
    (spelled' : ∀ token ∈ tokens', token.text ≠ []) (rest rest' : List Token) :
    (Node.deal nodes (tokens ++ rest)).map gist
      = (Node.deal nodes' (tokens' ++ rest')).map gist := by
  induction aligned with
  | nil => rfl
  | cons print print' same others ih =>
      rw [List.forall_mem_append] at spelled spelled'
      rw [List.append_assoc, List.append_assoc, deal_cons spelled.1 print,
        deal_cons spelled'.1 print', List.map_cons, List.map_cons, same,
        ih spelled.2 spelled'.2]

end Parser

namespace ClassText

open Token (Ended)
open Lineup.Parser (Item Parsed Closes)

/-- The keyword a class starts with. -/
def keyword : Token := ⟨.identifier, utf8 "class", 0⟩

/-- The tokens from the keyword of a class to its brace. -/
def header : List Token :=
  [⟨.whitespace, utf8 " ", 5⟩, ⟨.identifier, utf8 "C", 6⟩, ⟨.whitespace, utf8 " ", 7⟩,
    ⟨.punctuation, utf8 openBrace, 8⟩]

/-- The line end in front of the members of a class. -/
def lineEnd : Token := ⟨.newline, [Byte.lineFeed], 9⟩

theorem ended_header :
    Ended (utf8 "class C \x7b\n") (keyword :: header ++ [lineEnd]) := by
  have lexed : Token.lexFrom true 0 (utf8 "class C \x7b\n")
      = keyword :: header ++ [lineEnd] := by
    decide +kernel
  have run := Token.run_lexFrom true 0 (utf8 "class C \x7b\n")
  rw [lexed] at run
  refine ⟨by decide, fun behind => ?_, rfl⟩
  apply run.restart rfl
  intro last
  cases last

theorem next_header (rest : List Token) :
    Item.next (.items false) keyword (header ++ rest)
      = .block (.typeDeclaration .classType (utf8 "C"))
        [keyword, ⟨.identifier, utf8 "C", 6⟩] .members (header.length + 1) := rfl

theorem lex_header (text : Text) : Token.lex (utf8 "class C \x7b\n" ++ text)
    = keyword :: (header ++ (lineEnd :: Token.lexFrom true 10 text)) :=
  ended_header.lexFrom 0 text

theorem lead_eq_nil {lead more rest : List Token} {first token : Token}
    (trivia : ∀ token ∈ lead, token.isTrivia = true) (solid : token.isTrivia = false)
    (all : token :: rest = lead ++ first :: more) :
    lead = [] ∧ token = first ∧ rest = more := by
  cases lead with
  | nil => exact ⟨rfl, List.cons.inj all⟩
  | cons front lead =>
      have ignored := trivia front List.mem_cons_self
      rw [← (List.cons.inj all).1, solid] at ignored
      cases ignored

/-- The nodes of a file that starts with the header of a class: the class comes first,
with the members that the text behind the header spells. -/
inductive Found (text : Text) : List Node → Prop where
  | intro {info : NodeInfo} {members others : List Node}
        {body closing trail rest : List Token}
      {final : List Segment} (kind : info.kind = .typeDeclaration .classType (utf8 "C"))
      (leading : info.leading = [])
      (tokens : Token.lexFrom true 10 text = body ++ (closing ++ (trail ++ rest)))
      (parsed : Parsed .members members body (closing ++ (trail ++ rest)))
      (closes : Closes .members closing trail rest final) :
      Found text (.mk info (.text (Token.joined (keyword :: header ++ [lineEnd]))
        :: .list .members members :: final) :: others)

theorem found_children (text : Text) :
    Found text (Tree.parse (utf8 "class C \x7b\n" ++ text)).top.children := by
  have file := Parser.parse_file (utf8 "class C \x7b\n" ++ text)
  rw [lex_header] at file
  generalize (Tree.parse _).top = top at file
  cases file with
  | @intro nodes tokens tail parsed trivia all =>
      rw [Parser.children_file]
      cases parsed with
      | nil =>
          have ignored := trivia keyword (by rw [List.nil_append] at all; simp [← all])
          cases ignored
      | leaf id lead starts inside reads =>
          simp only [List.append_assoc, List.cons_append] at all
          obtain ⟨rfl, rfl, ahead⟩ := lead_eq_nil lead rfl all
          rw [← ahead, next_header] at reads
          cases reads
      | @block _ inner id kind _ head _ header' opening body closing trail tokens
            _ nodes members final lead starts inside reads opens within closes others =>
          simp only [List.append_assoc, List.cons_append] at all
          obtain ⟨rfl, rfl, ahead⟩ := lead_eq_nil lead rfl all
          rw [← ahead, next_header, Item.block.injEq] at reads
          obtain ⟨rfl, -, rfl, width⟩ := reads
          obtain ⟨rfl, behind⟩ := List.append_inj ahead (Nat.succ.inj width)
          rw [← behind] at opens
          have line : [lineEnd].length = opening.length := opens
          obtain ⟨rfl, found⟩ :=
            List.append_inj (List.singleton_append.trans behind) line
          rw [Parser.Scope.body_members, ← Token.joined_append]
          exact .intro rfl rfl found within closes

/-- The members found in the text behind the header of a class, with their tokens. -/
inductive Members (text : Text) : List (List Token) → Prop where
  | intro {members : List Node} {body closing trail rest : List Token}
        {final : List Segment}
      (tokens : Token.lexFrom true 10 text = body ++ (closing ++ (trail ++ rest)))
      (parsed : Parsed .members members body (closing ++ (trail ++ rest)))
      (closes : Closes .members closing trail rest final) :
      Members text (Node.deal members (Token.lexFrom true 10 text))

theorem exists_members (text : Text) : ∃ units,
    Tree.units? (utf8 "class C \x7b\n" ++ text) = some units ∧ Members text units := by
  have found := found_children text
  rw [Tree.units?, lex_header]
  generalize (Tree.parse _).top.children = nodes at found
  cases found with
  | @intro info members others body closing trail rest final kind leading tokens parsed
    closes =>
      refine ⟨_, ?_, .intro tokens parsed closes⟩
      have spelled : ∀ token ∈ keyword :: header ++ [lineEnd], token.text ≠ [] := by
        decide
      have covered := Token.cover_joined spelled (Token.lexFrom true 10 text)
      simp only [leading]
      exact congrArg (fun rest => some (Node.deal members rest.2)) covered

end ClassText

/-- The source of a member that is found as such in front of a field. -/
structure Standalone (source : Text) : Prop where
  /-- Its brackets are closed. -/
  nested : Mark.Nested ((Token.lex source).filterMap Token.bracket?)
  /-- It does not continue a member in front of it. -/
  starts : ∀ first ∈ (Token.gistOf source).head?,
    first.text ≠ utf8 "=" ∧ first.text ≠ utf8 ";"
  /-- In a class with a field behind it, it is one member and the field is the other. -/
  found : (Tree.units? (classText [source, utf8 "int zz;"])).map (·.map Token.gist)
    = some [Token.gistOf source, Token.gistOf (utf8 "int zz;")]

namespace Standalone

open Token (gist gistOf Ended)
open Lineup.Parser (Parsed)
open Lineup.Span (Clear IsWord)

/-- The word that a member is found in front of. -/
def word : Token := ⟨.identifier, utf8 "int", 0⟩

theorem isWord_word : IsWord word := ⟨by decide, by decide, by decide⟩

/-- The brace that closes a class. -/
def brace : Token := ⟨.punctuation, utf8 closeBrace, 0⟩

theorem gist_brace : gist (Token.lex (utf8 "\x7d\n")) = [brace] := by decide +kernel

theorem done_brace : Parser.Done .members [brace] := by
  rintro token more ⟨⟩
  rfl

theorem spelled_gistOf {source : Text} : ∀ token ∈ gistOf source, token.text ≠ [] := by
  intro token member
  obtain ⟨found, significant, rfl⟩ := List.mem_map.mp member
  exact (Token.run_lexFrom true 0 source).text_ne_nil found
    (List.mem_of_mem_filter significant)

variable {source : Text}

theorem exists_first (unit : Standalone source) : ∃ node own rest more,
    Token.lexFrom true 10 (source ++ Byte.lineFeed :: utf8 "int zz;\n\x7d\n")
      = own ++ rest
      ∧ Parsed .members [node] own rest ∧ gist own = gistOf source
      ∧ gist rest = word :: more := by
  have text : classText [source, utf8 "int zz;"]
      = utf8 "class C \x7b\n"
        ++ (source ++ Byte.lineFeed :: utf8 "int zz;\n\x7d\n") := by
    have follow : utf8 "int zz;" ++ utf8 "\n\x7d\n" = utf8 "int zz;\n\x7d\n" := by
      decide
    simp [classText, List.intercalate, List.intersperse, ← follow]
  obtain ⟨units, is, found⟩ :=
    ClassText.exists_members (source ++ Byte.lineFeed :: utf8 "int zz;\n\x7d\n")
  have gists := unit.found
  rw [text, is, Option.map_some, Option.some.injEq] at gists
  cases found with
  | @intro members body closing trail rest final tokens parsed closes =>
      have spelled := (Token.run_lexFrom true 10
        (source ++ Byte.lineFeed :: utf8 "int zz;\n\x7d\n")).text_ne_nil
      rw [tokens] at gists spelled ⊢
      cases members with
      | nil => cases gists
      | cons first members =>
          obtain ⟨own, others, rfl, alone, later⟩ := parsed.uncons
          rw [List.append_assoc] at gists spelled ⊢
          rw [List.forall_mem_append] at spelled
          rw [Parser.deal_cons spelled.1 alone.print, List.map_cons,
            List.cons.injEq] at gists
          cases members with
          | nil => cases gists.2
          | cons second members =>
              obtain ⟨next, others, rfl, alone', -⟩ := later.uncons
              rw [List.append_assoc, List.forall_mem_append] at spelled
              rw [List.append_assoc, Parser.deal_cons spelled.2.1 alone'.print,
                List.map_cons, List.cons.injEq] at gists
              have field : gistOf (utf8 "int zz;")
                  = word :: [⟨.identifier, utf8 "zz", 0⟩,
                    ⟨.punctuation, utf8 ";", 0⟩] := by
                decide +kernel
              have ahead := Token.gist_append next
                (others ++ (closing ++ (trail ++ rest)))
              rw [gists.2.1, field, List.cons_append, ← List.append_assoc] at ahead
              exact ⟨first, own, _, _, rfl, alone, gists.1, ahead⟩

theorem gist_ne_nil (unit : Standalone source) : gistOf source ≠ [] := by
  obtain ⟨node, own, rest, more, -, parsed, same, behind⟩ := unit.exists_first
  rw [← same]
  exact (parsed.stops isWord_word behind).ne_nil

/-- The source ends with a line when a line feed follows it. -/
theorem exists_ended (unit : Standalone source) : ∃ tokens,
    Ended (source ++ [Byte.lineFeed]) tokens ∧ gist tokens = gistOf source := by
  obtain ⟨node, own, rest, more, all, -, same, behind⟩ := unit.exists_first
  exact Token.exists_ended all same behind (by decide) (by decide)

/-- The significant tokens are read as one member in front of everything that does not
continue it. -/
theorem exists_parsed (unit : Standalone source) {after : List Token}
    (clear : Clear after) (solid : ∀ token ∈ after, token.isTrivia = false) :
    ∃ node, Parsed .members [node] (gistOf source) after := by
  obtain ⟨node, own, rest, more, -, parsed, same, behind⟩ := unit.exists_first
  have nested : Mark.Nested ((gist own).filterMap Token.bracket?) := by
    rw [same, gistOf, Token.brackets_gist]
    exact unit.nested
  have sound := Parser.sound_of_nested (parsed.stops isWord_word behind) nested
  rw [← List.append_nil (gist own)] at sound
  obtain ⟨moved, length, read⟩ :=
    parsed.transplant isWord_word clear solid rfl behind sound
  obtain ⟨only, rfl⟩ := List.length_eq_one_iff.mp length
  rw [same] at read
  exact ⟨only, read⟩

theorem clear (unit : Standalone source) (more : List Token) :
    Clear (gistOf source ++ more) := by
  cases tokens : gistOf source with
  | nil => exact absurd tokens unit.gist_ne_nil
  | cons first rest =>
      have solid : first.isTrivia = false :=
        Token.solid_gist first (tokens ▸ List.mem_cons_self)
      have starts := unit.starts first (by rw [tokens]; rfl)
      constructor
      · simp [Span.nextIs, solid, Token.is, starts.1]
      · simp [Span.nextIs, solid, Token.is, starts.2]

variable {sources : List Text} (units : ∀ source ∈ sources, Standalone source)

include units

theorem exists_ended_all : ∃ tokens,
    Ended (List.intercalate [Byte.lineFeed] sources ++ [Byte.lineFeed]) tokens
      ∧ gist tokens = sources.flatMap gistOf := by
  induction sources with
  | nil => exact ⟨_, Ended.lineFeed, rfl⟩
  | cons source sources ih =>
      rw [List.forall_mem_cons] at units
      obtain ⟨tokens, ended, same⟩ := units.1.exists_ended
      cases sources with
      | nil =>
          exact ⟨tokens, by simpa [List.intercalate] using ended, by simpa using same⟩
      | cons next sources =>
          obtain ⟨others, later, below⟩ := ih units.2
          refine ⟨tokens ++ others, ?_, ?_⟩
          · rw [List.intercalate_cons_cons, List.append_assoc]
            exact ended.append later
          · rw [Token.gist_append, same, below]
            rfl

omit units in
theorem solid_all :
    ∀ token ∈ sources.flatMap gistOf ++ [brace], token.isTrivia = false := by
  rw [List.forall_mem_append]
  refine ⟨fun token member => ?_, by decide⟩
  obtain ⟨source, -, among⟩ := List.mem_flatMap.mp member
  exact Token.solid_gist token among

theorem clear_all : Clear (sources.flatMap gistOf ++ [brace]) := by
  cases sources with
  | nil => exact ⟨by decide, by decide⟩
  | cons source sources =>
      rw [List.flatMap_cons, List.append_assoc]
      exact (units source List.mem_cons_self).clear _

theorem exists_parsed_all :
    ∃ nodes, Parsed .members nodes (sources.flatMap gistOf) [brace]
      ∧ Node.deal nodes (sources.flatMap gistOf ++ [brace]) = sources.map gistOf := by
  induction sources with
  | nil => exact ⟨[], .nil, rfl⟩
  | cons source sources ih =>
      rw [List.forall_mem_cons] at units
      obtain ⟨nodes, later, dealt⟩ := ih units.2
      obtain ⟨node, first⟩ := units.1.exists_parsed (clear_all units.2) solid_all
      refine ⟨node :: nodes, first.append later, ?_⟩
      rw [List.flatMap_cons, List.append_assoc,
        Parser.deal_cons spelled_gistOf first.print, dealt, List.map_cons]

end Standalone

namespace Tree

open Token (gist gistOf)

theorem gist_units {sources : List Text}
    (units : ∀ source ∈ sources, Standalone source) :
    (units? (classText sources)).map (·.map gist) = some (sources.map gistOf) := by
  obtain ⟨tokens, ended, gists⟩ := Standalone.exists_ended_all units
  obtain ⟨nodes, parsed, dealt⟩ := Standalone.exists_parsed_all units
  obtain ⟨found, is, body⟩ := ClassText.exists_members
    (List.intercalate [Byte.lineFeed] sources ++ [Byte.lineFeed] ++ utf8 "\x7d\n")
  have text : classText sources = utf8 "class C \x7b\n"
      ++ (List.intercalate [Byte.lineFeed] sources ++ [Byte.lineFeed]
        ++ utf8 "\x7d\n") := by
    rw [classText, List.append_assoc, List.append_assoc]
    rfl
  rw [text, is, Option.map_some, Option.some.injEq]
  cases body with
  | @intro members body closing trail rest final lexed inside closes =>
      have whole : gist (body ++ (closing ++ (trail ++ rest)))
          = sources.flatMap gistOf ++ [Standalone.brace] := by
        rw [← lexed, ended.lexFrom, Token.gist_append, Token.gist_place, gists,
          ← Standalone.gist_brace, Token.lex]
        exact congrArg _ (Token.gist_congr (Token.map_face_lexFrom true _ 0 _))
      have same : gist (body ++ (closing ++ (trail ++ rest)))
          = gist (sources.flatMap gistOf ++ [Standalone.brace]) := by
        rw [← whole, Token.gist_gist]
      have spelled :=
        (Token.run_lexFrom true 10 (List.intercalate [Byte.lineFeed] sources
        ++ [Byte.lineFeed] ++ utf8 "\x7d\n")).text_ne_nil
      rw [lexed, List.forall_mem_append] at spelled
      have spelled' : ∀ token ∈ sources.flatMap gistOf, token.text ≠ [] := by
        intro token member
        obtain ⟨source, -, among⟩ := List.mem_flatMap.mp member
        exact Standalone.spelled_gistOf token among
      have aligned := inside.aligned parsed same closes.done Standalone.done_brace
      rw [lexed, aligned.deal spelled.1 spelled' _ [Standalone.brace], dealt,
        List.map_map]
      exact List.map_congr_left fun source _ => Token.gist_gist (Token.lex source)

/-- Sources that are members of their own are found as such, each made of its own
significant tokens, in whatever order they are written. -/
theorem units_classText {sources : List Text}
    (units : ∀ source ∈ sources, Standalone source) :
    (units? (classText sources)).map (·.map gist) = some (sources.map gistOf)
      ∧ ∀ order : List Text, order.Perm sources →
        (units? (classText order)).map (·.map gist) = some (order.map gistOf) := by
  refine ⟨gist_units units, fun order same => ?_⟩
  exact gist_units fun source member => units source (same.mem_iff.mp member)

/-- A field with an attribute and an initializer, a method with a comment, and a nested
class can be written in any order. -/
theorem units_classText_three :
    let sources := [utf8 "[A(1)] int[] x = \x7b 1 \x7d;",
      utf8 "// \x7d\nvoid F() \x7b G(\"\x7d\"); \x7d", utf8 "class D \x7b int y; \x7d"]
    (∀ source ∈ sources, Standalone source)
      ∧ (units? (classText sources.reverse)).map (·.map gist)
        = some (sources.reverse.map gistOf) := by
  intro sources
  have units : ∀ source ∈ sources, Standalone source := by
    have each : ∀ source
        ∈ sources, Mark.Nested ((Token.lex source).filterMap Token.bracket?)
        ∧ (∀ first ∈ (gistOf source).head?, first.text ≠ utf8 "="
          ∧ first.text ≠ utf8 ";")
        ∧ (units? (classText [source, utf8 "int zz;"])).map (·.map gist)
          = some [gistOf source, gistOf (utf8 "int zz;")] := by
      decide +kernel
    intro source member
    obtain ⟨nested, starts, found⟩ := each source member
    exact ⟨nested, starts, found⟩
  exact ⟨units, (units_classText units).2 _ (List.reverse_perm _)⟩

end Tree

end Lineup
