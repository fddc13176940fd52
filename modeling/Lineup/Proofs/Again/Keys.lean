import Lineup.Proofs.Syntax.Closed
import Lineup.Proofs.Syntax.Ownership
import Lineup.Proofs.Syntax.Surroundings
import Lineup.Proofs.Token.Words

/-!
# What a using directive says on its own

The place of a using directive in its list is decided by its tokens and by the source
text between them. Nothing in front of the directive or behind it matters: what decides
its place is found in the text of the directive alone.
-/

namespace Lineup

namespace Token

theorem textBetween_shift {source before text after : Text}
    (parted : source = before ++ (text ++ after)) (first : Token) {last : Token}
    (within : last.stop ≤ text.length) :
    textBetween source (shift before.length first) (shift before.length last)
      = textBetween text first last := by
  have stops : (shift before.length last).stop = before.length + last.stop :=
    Nat.add_assoc ..
  rw [textBetween, stops, shift, parted, List.take_length_add_append,
    List.drop_length_add_append, List.take_append_of_le_length within, textBetween]

theorem stop_le_of_mem_lex {text : Text} {token : Token} (member : token ∈ lex text) :
    token.stop ≤ text.length := by
  have all : lex text = [] ++ (lex text ++ []) := by simp
  have spans := (span_of_lex all member).2.2
  rwa [joined_lex, joined_nil, List.length_nil, Nat.zero_add] at spans

@[simp] theorem is_shift (distance : Nat) (token : Token) (spelling : String) :
    (shift distance token).is spelling = token.is spelling := rfl

@[simp] theorem isIdentifier_shift (distance : Nat) (token : Token) :
    (shift distance token).isIdentifier = token.isIdentifier := rfl

@[simp] theorem significant_shift (distance : Nat) (tokens : List Token) :
    significant (tokens.map (shift distance))
      = (significant tokens).map (shift distance) :=
  List.filter_map ..

end Token

namespace Directive

open Token (shift)

variable (distance : Nat)

theorem dropSemicolon_shift (tokens : List Token) :
    dropSemicolon (tokens.map (shift distance))
      = (dropSemicolon tokens).map (shift distance) := by
  rw [dropSemicolon, dropSemicolon, List.getLast?_map, Option.any_map,
    apply_ite (List.map _), List.map_dropLast]
  rfl

theorem takeWord_shift (word : String) (tokens : List Token) :
    takeWord word (tokens.map (shift distance))
      = ((takeWord word tokens).1, (takeWord word tokens).2.map (shift distance)) := by
  cases tokens with
  | nil => rfl
  | cons token tokens =>
      rw [List.map_cons, takeWord, takeWord, Token.is_shift]
      split <;> rfl

theorem takeAlias_shift (tokens : List Token) :
    takeAlias (tokens.map (shift distance))
      = ((takeAlias tokens).1, (takeAlias tokens).2.map (shift distance)) := by
  rcases tokens with _ | ⟨name, _ | ⟨equals, tokens⟩⟩
  · rfl
  · rfl
  · rw [List.map_cons, List.map_cons, takeAlias, takeAlias, Token.isIdentifier_shift,
      Token.is_shift]
    split <;> rfl

variable {tokens : List Token} {token : Token}

theorem mem_of_mem_dropSemicolon (member : token ∈ dropSemicolon tokens) :
    token ∈ tokens := by
  rw [dropSemicolon] at member
  split at member
  · exact List.dropLast_subset tokens member
  · exact member

theorem mem_of_mem_takeWord {word : String}
    (member : token ∈ (takeWord word tokens).2) :
    token ∈ tokens := by
  cases tokens with
  | nil => exact member
  | cons first tokens =>
      rw [takeWord] at member
      split at member
      · exact List.mem_cons_of_mem first member
      · exact member

theorem mem_of_mem_takeAlias (member : token ∈ (takeAlias tokens).2) :
    token ∈ tokens := by
  rcases tokens with _ | ⟨name, _ | ⟨equals, tokens⟩⟩
  · exact member
  · exact member
  · rw [takeAlias] at member
    split at member
    · exact List.mem_cons_of_mem name (List.mem_cons_of_mem equals member)
    · exact member

/-- What the text of a using directive says on its own. -/
def alone (text : Text) : DirectiveInfo :=
  classify text (.mk { id := 0, kind := .usingDirective, leading := [], trailing := [],
                       head := Token.significant (Token.lex text) } [])

/-- The node is a single text, and as a using directive it says what this text says on
its own. -/
def Speaks (source : Text) (node : Node) : Prop :=
  ∃ text, node.segments = [.text text] ∧ classify source node = alone text

theorem classify_eq_alone {source before text after : Text}
    (parted : source = before ++ (text ++ after)) {node : Node}
    (head : node.head = (Token.significant (Token.lex text)).map
      (shift before.length)) :
    classify source node = alone text := by
  have within : ∀ token ∈ Token.significant (Token.lex text),
      token.stop ≤ text.length :=
    fun token member => Token.stop_le_of_mem_lex (List.mem_of_mem_filter member)
  rw [alone, classify, classify, head, Node.head, Node.info]
  generalize Token.significant (Token.lex text) = tokens at within
  simp only [dropSemicolon_shift, takeWord_shift, takeAlias_shift, List.head?_map,
    List.getLast?_map]
  generalize found : (takeAlias (takeWord "static" (takeWord "using"
    (takeWord "global" (dropSemicolon tokens)).2).2).2).2 = subject
  cases first : subject.head? with
  | none => rfl
  | some start =>
      cases last : subject.getLast? with
      | none => rfl
      | some stop =>
          have listed : stop ∈ tokens := by
            have member := List.mem_of_getLast? last
            rw [← found] at member
            exact mem_of_mem_dropSemicolon (mem_of_mem_takeWord (mem_of_mem_takeWord
              (mem_of_mem_takeWord (mem_of_mem_takeAlias member))))
          simp only [Option.map_some,
            Token.textBetween_shift parted start (within stop listed)]

end Directive

namespace Parser

open Token (Run lex joined shift)

theorem Item.head_of_directive {scope : Scope} {first : Token} {rest head : List Token}
    {width : Nat} (reads : next scope first rest = .leaf .usingDirective head width) :
    head = Token.significant ((first :: rest).take width) := by
  rcases next_cases scope first
    rest with ⟨keyword, name, is⟩ | ⟨braced, -, is⟩ | ⟨kind, _, is, -⟩
  · have same := kind_ofType keyword name first rest
    rw [← is, reads] at same
    cases same
  · have same := kind_ofNamespace first rest
    rw [← is, reads] at same
    cases same
  · rw [is, whole, Item.leaf.injEq] at reads
    obtain ⟨-, rfl, rfl⟩ := reads
    rfl

theorem Item.classify_directive {scope : Scope} {source : Text} {first : Token}
    {before core after head : List Token}
    (all : lex source = before ++ (first :: core ++ after))
    (starts : first.isTrivia = false)
    (reads : next scope first (core ++ after)
      = .leaf .usingDirective head (core.length + 1))
    {node : Node} (heads : node.head = head) :
    Directive.classify source node = Directive.alone (joined (first :: core)) := by
  have said : (next scope first (core ++ after)).kind = .usingDirective := by
    rw [reads]
    rfl
  have plain : first.is "#" = false := by
    rcases is_of_directive starts said with spelled | spelled
    all_goals exact Token.is_of_is spelled (by decide)
  -- A directive starts with a word, so it is read in the same way wherever a line
  -- starts.
  have run : Run true (first :: core) (joined after ++ []) := by
    have run := Token.run_lexFrom true 0 source
    rw [← lex, all] at run
    exact (Token.run_append.mp (Token.run_append.mp run).2).1.anyLineStart starts
      plain true
  have own := head_of_directive reads
  simp only [List.take_succ_cons, List.take_left] at own
  have parted : source = joined before ++ (joined (first :: core) ++ joined after) := by
    rw [← Token.joined_append, ← Token.joined_append, ← all, Token.joined_lex]
  apply Directive.classify_eq_alone parted
  rw [heads, own, ← Token.significant_shift, Token.map_shift_lex all run]

/-- The using directives among parsed nodes and below them say what their own texts
say. -/
theorem Parsed.speaks {scope : Scope} {nodes : List Node} {tokens rest : List Token}
    (parsed : Parsed scope nodes tokens rest) {source : Text} {before : List Token}
    (all : lex source = before ++ (tokens ++ rest)) :
    ∀ node ∈ Node.familyAll nodes, node.kind = .usingDirective →
      Directive.Speaks source node := by
  induction parsed generalizing before with
  | nil => simp
  | @leaf scope id kind first head lead core trail tokens rest nodes trivia starts
        inside reads trails others ih =>
      have own : before ++ (lead ++ first :: (core ++ (trail ++ tokens)) ++ rest)
          = (before ++ lead) ++ (first :: core ++ (trail ++ (tokens ++ rest))) := by
            simp
      have later : before ++ (lead ++ first :: (core ++ (trail ++ tokens)) ++ rest)
          = (before ++ lead ++ (first :: core ++ trail)) ++ (tokens ++ rest) := by simp
      rw [Node.familyAll_cons, List.forall_mem_append, Node.family_children,
        List.forall_mem_cons]
      refine ⟨⟨fun is => ?_, by simp [Node.children, Node.segments, Segment.children]⟩,
        ih (all.trans later)⟩
      obtain rfl : kind = .usingDirective := is
      exact ⟨_, rfl, Item.classify_directive (all.trans own) starts reads rfl⟩
  | @block scope inner id kind first head lead header opening body closing trail tokens
        rest nodes members final trivia starts inside reads opens within closes others
        ihWithin ih =>
      have inward : before
            ++ (lead ++ first :: (header
              ++ (opening ++ (body ++ (closing ++ (trail ++ tokens))))) ++ rest)
          = (before ++ lead ++ (first :: header ++ opening))
            ++ (body ++ (closing ++ (trail ++ (tokens ++ rest)))) := by simp
      have later : before
            ++ (lead ++ first :: (header
              ++ (opening ++ (body ++ (closing ++ (trail ++ tokens))))) ++ rest)
          = (before ++ lead ++ (first :: header ++ opening)
            ++ (body ++ (closing ++ trail)))
            ++ (tokens ++ rest) := by simp
      rw [Node.familyAll_cons, List.forall_mem_append, Node.family_children,
        List.forall_mem_cons, children_block closes, ← Node.familyAll_eq]
      exact ⟨⟨fun is => absurd is (Item.kind_of_block reads),
        ihWithin (all.trans inward)⟩, ih (all.trans later)⟩

/-- What a using directive of a source text says is found in its own text. -/
theorem File.speaks {source : Text} {top : Node} (file : File (lex source) top) :
    ∀ node ∈ top.family, node.kind = .usingDirective →
      Directive.Speaks source node := by
  cases file with
  | @intro nodes tokens tail parsed trivia all =>
      rw [Node.family_children, List.forall_mem_cons, children_file,
        ← Node.familyAll_eq]
      exact ⟨nofun, @Parsed.speaks _ _ _ _ parsed source [] all⟩

end Parser

end Lineup
