import Lineup.Proofs.Content
import Lineup.Proofs.Syntax.Places
import Lineup.Proofs.Token.Restart
import Lineup.Proofs.Token.Tiles

/-!
# The trivia around a node

Where a preprocessor line may start, and where a comment or a literal ends, depends on
what stands in front of a token. The trivia around a node can be read without that:
leading trivia start where a line starts, and trailing trivia hold no preprocessor line
and at most one line end, the last of them. So the tokens of either, read on its own,
are the tokens of the source text in that place.
-/

namespace Lineup

namespace Token

/-- The tokens that share a byte with the span from `start` to `stop`. -/
def overlapping (start stop : Nat) (tokens : List Token) : List Token :=
  tokens.filter fun token => start < token.stop && token.offset < stop

/-- The trivia that stand in the source text from `offset` on are what is read from
`text` alone. -/
structure Alone (source : Text) (offset : Nat) (text : Text) : Prop where
  piece : text <+: source.drop offset
  tokens : (lex text).map (shift offset)
    = overlapping offset (offset + text.length) (lex source)
  trivia : ∀ token ∈ lex text, token.isTrivia = true

section Pieces

variable {source : Text} {before own after : List Token}

theorem span_of_lex (all : lex source = before ++ (own ++ after)) {token : Token}
    (member : token ∈ own) :
    (joined before).length ≤ token.offset ∧ token.offset < token.stop
      ∧ token.stop ≤ (joined before).length + (joined own).length := by
  have found : token ∈ lex source := by
    rw [all]
    exact List.mem_append_right _ (List.mem_append_left _ member)
  have present := List.length_pos_of_ne_nil (text_ne_nil_of_mem_lex found)
  obtain ⟨front, back, rfl⟩ := List.append_of_mem member
  have parted : lex source = (before ++ front) ++ token :: (back ++ after) := by
    rw [all]
    simp
  have start := offset_of_lex parted
  rw [joined_append, List.length_append] at start
  simp only [stop, joined_append, joined_cons, List.length_append]
  omega

theorem overlapping_of_lex (all : lex source = before ++ (own ++ after)) :
    overlapping (joined before).length ((joined before).length + (joined own).length)
      (lex source)
      = own := by
  have front : ∀ token ∈ before, token.stop ≤ (joined before).length := by
    intro token member
    have spans := span_of_lex (all.trans (List.nil_append _).symm) member
    simpa using spans.2.2
  have back : ∀ token ∈ after,
      (joined before).length + (joined own).length ≤ token.offset := by
    intro token member
    have parted : lex source = (before ++ own) ++ (after ++ []) := by
      rw [all]
      simp
    have spans := span_of_lex parted member
    rw [joined_append, List.length_append] at spans
    exact spans.1
  rw [overlapping, all, List.filter_append, List.filter_append,
    List.filter_eq_nil_iff.mpr, List.filter_eq_self.mpr, List.filter_eq_nil_iff.mpr,
    List.nil_append, List.append_nil]
  · intro token member
    have bound := back token member
    simp only [Bool.and_eq_true, decide_eq_true_eq]
    omega
  · intro token member
    have spans := span_of_lex all member
    simp only [Bool.and_eq_true, decide_eq_true_eq]
    omega
  · intro token member
    have bound := front token member
    simp only [Bool.and_eq_true, decide_eq_true_eq]
    omega

/-- Tokens that can be read at the start of a line are what is read from their text
alone. -/
theorem map_shift_lex (all : lex source = before ++ (own ++ after)) {behind : Text}
    (run : Run true own behind) :
    (lex (joined own)).map (shift (joined before).length) = own := by
  have alone := lexFrom_run (run.cut (.nothing _)) 0
  rw [List.append_nil, lexFrom_nil, List.append_nil] at alone
  have placed := place_lexFrom true 0 0 source
  rw [← lex, all, place_append, place_append] at placed
  have same := (List.append_inj placed (length_place _ _)).2
  rw [lex, alone, ← place_shift, Nat.add_zero, ← Nat.zero_add (joined before).length]
  exact (List.append_inj same (length_place _ _)).1

theorem forall_kind_of_shift {distance : Nat} {tokens others : List Token}
    (same : tokens.map (shift distance) = others) {P : TokenKind → Prop}
    (each : ∀ token ∈ others, P token.kind) : ∀ token ∈ tokens, P token.kind := by
  intro token member
  subst same
  exact each (shift distance token) (List.mem_map_of_mem member)

theorem piece_of_lex (all : lex source = before ++ (own ++ after)) :
    joined own <+: source.drop (joined before).length := by
  rw [← joined_lex source, all, joined_append, joined_append, List.drop_left]
  exact List.prefix_append _ _

theorem Alone.of_lex (all : lex source = before ++ (own ++ after)) {behind : Text}
    (run : Run true own behind) (trivia : ∀ token ∈ own, token.isTrivia = true) :
    Alone source (joined before).length (joined own) where
  piece := piece_of_lex all
  tokens := by rw [map_shift_lex all run, overlapping_of_lex all]
  trivia := forall_kind_of_shift (map_shift_lex all run)
    (P := (TokenKind.isTrivia · = true)) trivia

end Pieces

/-- What follows the tokens is at the start of the text, or it follows a line end. -/
def LineBegins (before : List Token) : Prop :=
  before = [] ∨ ∃ newline ∈ before.getLast?, newline.kind = .newline

theorem LineBegins.lineStartAfter_eq {before : List Token}
    (begins : LineBegins before) :
    lineStartAfter true before = true := by
  rcases begins with rfl | ⟨newline, last, is⟩
  · rfl
  · obtain ⟨front, rfl⟩ := List.getLast?_eq_some_iff.mp last
    exact lineStartAfter_newline true front is

theorem LineBegins.offset_eq {source : Text} {before after : List Token}
    (begins : LineBegins before) (all : lex source = before ++ after) :
    (joined before).length = 0 ∨ ∃ newline ∈ lex source,
      newline.kind = .newline ∧ newline.stop = (joined before).length := by
  rcases begins with rfl | ⟨newline, last, is⟩
  · exact .inl rfl
  · obtain ⟨front, rfl⟩ := List.getLast?_eq_some_iff.mp last
    rw [List.append_assoc] at all
    exact .inr ⟨newline, by simp [all], is, stop_of_lex all⟩

/-- Where the tokens `after` follow the tokens `before`, trivia stand only at the start
of a line. -/
def Breaks (before after : List Token) : Prop :=
  ∀ next ∈ after.head?, next.isTrivia = true → LineBegins before

section Leading

variable {before lead after : List Token}

theorem Breaks.lineBegins (breaks : Breaks before (lead ++ after))
    (trivia : ∀ token ∈ lead, token.isTrivia = true) (present : lead ≠ []) :
    LineBegins before := by
  obtain ⟨first, others, rfl⟩ := List.exists_cons_of_ne_nil present
  exact breaks first rfl (trivia first List.mem_cons_self)

/-- Leading trivia can be read at the start of a line. -/
theorem Breaks.run (breaks : Breaks before (lead ++ after))
    (trivia : ∀ token ∈ lead, token.isTrivia = true)
    (run : Run true (before ++ (lead ++ after)) []) :
    Run true lead (joined after ++ []) := by
  by_cases present : lead = []
  · rw [present]
    trivial
  · have own := (run_append.mp (run_append.mp run).2).1
    rwa [(breaks.lineBegins trivia present).lineStartAfter_eq] at own

end Leading

theorem lineStartAfter_inline {tokens : List Token}
    (inline : ∀ token ∈ tokens, token.kind ≠ .newline) :
    lineStartAfter false tokens = false := by
  induction tokens with
  | nil => rfl
  | cons token tokens ih =>
      obtain ⟨first, others⟩ := List.forall_mem_cons.mp inline
      rw [lineStartAfter_cons]
      cases kind : token.kind with
      | newline => exact absurd kind first
      | _ => exact ih others

theorem IsRead.lineStart_of_directive {lineStart : Bool} {token : Token} {behind : Text}
    (read : IsRead lineStart token behind) (is : token.kind = .directive) :
    lineStart = true := by
  cases read with
  | intro spelled reads =>
      rw [is] at reads
      generalize size : List.length _ = width at reads
      cases reads with
      | directive _ starts => exact starts

/-- Behind a significant token and its trailing trivia, trivia stand only at the start
of a line. -/
theorem Breaks.of_trailing {before trail after : List Token} {last : Token}
    (run : Run true (before ++ (last :: trail ++ after)) [])
    (solid : last.isTrivia = false)
    (trails : Span.trailing (trail ++ after) = trail.length) :
    Breaks (before ++ last :: trail) after := by
  intro next first ignored
  right
  rcases (Span.trailing_spec trails).2 with ⟨front, newline, rfl, is, -⟩ | ⟨inline,
    significant⟩
  · rw [← List.cons_append, ← List.append_assoc]
    exact ⟨newline, List.getLast?_concat, is⟩
  rcases significant next first with solid | directive
  · rw [solid] at ignored
    cases ignored
  · -- A preprocessor line needs a line start, and there is none behind a token that
    -- is significant.
    obtain ⟨more, rfl⟩ := List.head?_eq_some_iff.mp first
    have read := (run_append.mp (run_append.mp run).2).2.1
    rw [lineStartAfter_cons, startsLine_of_significant solid,
      lineStartAfter_inline inline] at read
    cases read.lineStart_of_directive directive

end Token

open Token (Run joined lex Alone Breaks LineBegins)

/-- The trivia around a node that starts at `offset` mean the same on their own. -/
structure Node.Surrounded (source : Text) (offset : Nat) (node : Node) : Prop where
  printed : node.print <+: source.drop offset
  leading : Alone source offset node.leading
  trailing : Alone source
    (offset + (node.leading ++ Segment.printAll node.segments).length) node.trailing
  lineStart : node.leading ≠ [] →
    offset = 0 ∨ ∃ newline ∈ lex source, newline.kind = .newline ∧ newline.stop = offset
  directive : ∀ token ∈ lex node.trailing, token.kind ≠ .directive
  newline : ∀ token ∈ (lex node.trailing).dropLast, token.kind ≠ .newline

/-- How a node ends: with its trailing trivia, or without any where nothing but trivia
follows. -/
def Span.Trailed (trail after : List Token) : Prop :=
  Span.trailing (trail ++ after) = trail.length ∨
    trail = [] ∧ ∀ token ∈ after, token.isTrivia = true

/-- Trailing trivia hold no preprocessor line, and a line end at their end only. -/
theorem Span.Trailed.inline {trail after : List Token} (trailed : Trailed trail after) :
    (∀ token ∈ trail, token.isTrivia = true ∧ token.kind ≠ .directive)
      ∧ ∀ token ∈ trail.dropLast, token.kind ≠ .newline := by
  rcases trailed with trails | ⟨rfl, -⟩
  · obtain ⟨trivia, ends⟩ := trailing_spec trails
    refine ⟨trivia, ?_⟩
    rcases ends with ⟨front, newline, rfl, -, inline⟩ | ⟨inline, -⟩
    · rwa [List.dropLast_concat]
    · exact fun token member => inline token (List.dropLast_subset trail member)
  · simp

/-- Trailing trivia can be read at the start of a line, too: they hold no stray hash
sign. -/
theorem Span.Trailed.run {before trail after : List Token}
    (trailed : Trailed trail after) (run : Run true (before ++ (trail ++ after)) []) :
    Run true trail (joined after ++ []) := by
  have own := (Token.run_append.mp (Token.run_append.mp run).2).1
  exact own.starting (.of_trivia (fun token member => (trailed.inline.1 token member).1)
    own.stands.formed)

theorem Parser.Closes.trailed {scope : Scope} {closing trail rest : List Token}
    {final : List Segment} (closes : Closes scope closing trail rest final) :
    Span.Trailed trail rest := by
  cases closes with
  | brace _ _ _ _ trails => exact .inl trails
  | text => exact .inr ⟨rfl, by simp⟩
  | nothing _ trivia => exact .inr ⟨rfl, trivia⟩

/-- Behind a node, trivia stand only at the start of a line, unless nothing else
follows. -/
theorem Arrange.Ending.breaks {kind : NodeKind} {before after : List Token}
    {group : Group} (ending : Ending kind after group)
    (trailed : Span.Trailed group.trail after)
    (run : Run true (before ++ (group.source ++ after)) []) :
    Breaks (before ++ group.source) after ∨ ∀ token ∈ after, token.isTrivia = true := by
  rcases trailed with trails | ⟨-, trivia⟩
  · cases ending with
    | closed closed =>
        cases closed with
        | @intro front _ final ends _ bracket =>
            have parted : group.source ++ after
                = (group.lead ++ front) ++ (final :: group.trail ++ after) := by
              simp [Group.source, ends]
            have whole : before ++ group.source
                = (before ++ (group.lead ++ front)) ++ final :: group.trail := by
              simp [Group.source, ends]
            rw [parted, ← List.append_assoc] at run
            rw [whole]
            exact .inl (.of_trailing run (Token.isBracket.isTrivia_eq bracket) trails)
    | brace _ next closing =>
        refine .inl fun first found ignored => ?_
        obtain ⟨more, rfl⟩ := List.head?_eq_some_iff.mp found
        have solid := isTrivia_of_is closing
        have trivia := fun token member =>
          ((Span.trailing_spec trails).1 token member).1
        rw [head_of_trivia trivia solid next, solid] at ignored
        cases ignored
    | ended empty =>
        refine .inl fun first found => ?_
        rw [(List.append_eq_nil_iff.mp empty).2] at found
        cases found
    | file _ _ trivia => exact .inr trivia
  · exact .inr trivia

/-- The tokens that spell a node in the source text. -/
structure Arrange.Spelled (node : Node) (group : Group) : Prop where
  leading : node.leading = joined group.lead
  core : Segment.printAll node.segments = joined group.core
  trailing : node.trailing = joined group.trail
  trivia : ∀ token ∈ group.lead, token.isTrivia = true

theorem Arrange.Spelled.print {node : Node} {group : Group}
    (spelled : Spelled node group) :
    node.print = joined group.source := by
  obtain ⟨leading, core, trailing, -⟩ := spelled
  cases node with
  | mk info segments =>
      simp only [Node.leading, Node.trailing, Node.segments,
        Node.info] at leading core trailing
      simp [Group.source, leading, core, trailing]

/-- The trivia around a node mean the same on their own, when trivia stand only at the
start of a line where the node starts. -/
theorem Arrange.Spelled.surrounded {source : Text} {node : Node} {group : Group}
    {before after : List Token} (spelled : Spelled node group)
    (all : lex source = before ++ (group.source ++ after))
    (breaks : Breaks before (group.source ++ after))
    (trailed : Span.Trailed group.trail after) :
    node.Surrounded source (joined before).length := by
  have run : Run true (lex source) [] := Token.run_lexFrom true 0 source
  have piece := Token.piece_of_lex all
  rw [Group.source, List.append_assoc] at all breaks
  have behind : lex source
      = (before ++ (group.lead ++ group.core)) ++ (group.trail ++ after) := by
    rw [all]
    simp
  have runLead := breaks.run spelled.trivia (all ▸ run)
  have runTrail := trailed.run (behind ▸ run)
  obtain ⟨inline, last⟩ := trailed.inline
  have same := Token.map_shift_lex behind runTrail
  constructor
  case printed => rwa [spelled.print]
  case leading =>
    rw [spelled.leading]
    exact .of_lex all runLead spelled.trivia
  case trailing =>
    have alone := Alone.of_lex behind runTrail fun token member =>
      (inline token member).1
    rwa [spelled.leading, spelled.core, spelled.trailing, ← Token.joined_append,
      ← List.length_append, ← Token.joined_append]
  case lineStart =>
    intro present
    refine (breaks.lineBegins spelled.trivia fun empty => present ?_).offset_eq all
    rw [spelled.leading, empty, Token.joined_nil]
  case directive =>
    rw [spelled.trailing]
    exact Token.forall_kind_of_shift same (P := (· ≠ .directive)) fun token member =>
      (inline token member).2
  case newline =>
    rw [spelled.trailing]
    have same := (List.map_dropLast ..).trans (congrArg List.dropLast same)
    exact Token.forall_kind_of_shift same (P := (· ≠ .newline)) last

namespace Parser

theorem Parsed.eq_nil_of_trivia {scope : Scope} {nodes : List Node}
    {tokens rest : List Token} (parsed : Parsed scope nodes tokens rest)
    (trivia : ∀ token ∈ tokens, token.isTrivia = true) :
    nodes = [] := by
  cases parsed with
  | nil => rfl
  | leaf _ _ starts => simp_all
  | block _ _ starts => simp_all

theorem Item.breaks_body {scope inner : Scope} {kind : NodeKind} {first : Token}
    {head header opening before after : List Token}
    (reads : Item.next scope first (header ++ (opening ++ after))
      = .block kind head inner (header.length + 1))
    (opens : Span.trailing (opening ++ after) = opening.length)
    (run : Run true (before ++ (first :: header ++ opening) ++ after) []) :
    Breaks (before ++ (first :: header ++ opening)) after := by
  obtain ⟨front, last, ends, bracket⟩ := Item.header_bracket reads
  have cut : before ++ (first :: header ++ opening)
      = (before ++ front) ++ last :: opening := by
    simp [ends]
  rw [cut, List.append_assoc] at run
  rw [cut]
  exact .of_trailing run (Token.isBracket.isTrivia_eq bracket) opens

/-- What holds of a node and of the nodes inside of it holds in front of parsed nodes,
too: where the node ends, either a line starts, or no node follows. -/
theorem Parsed.surrounded_cons {scope : Scope} {kind : NodeKind} {node : Node}
    {nodes : List Node} {tokens rest before : List Token} {group : Arrange.Group}
    {source : Text} (others : Parsed scope nodes tokens rest)
    (spelled : Arrange.Spelled node group)
    (ending : Arrange.Ending kind (tokens ++ rest) group)
    (trailed : Span.Trailed group.trail (tokens ++ rest))
    (all : lex source = before ++ (group.source ++ (tokens ++ rest)))
    (breaks : Breaks before (group.source ++ (tokens ++ rest)))
    (inner : ∀ place ∈ Segment.placedAll ((joined before).length + node.leading.length)
      node.segments, place.2.Surrounded source place.1)
    (later : ∀ front, lex source = front ++ (tokens ++ rest) →
      Breaks front (tokens ++ rest) →
        ∀ place ∈ Node.placedAll (joined front).length nodes,
          place.2.Surrounded source place.1) :
    ∀ place ∈ Node.placedAll (joined before).length (node :: nodes),
      place.2.Surrounded source place.1 := by
  have own := spelled.surrounded all breaks trailed
  have behind : ∀ place ∈ Node.placedAll (joined (before ++ group.source)).length nodes,
      place.2.Surrounded source place.1 := by
    have run : Run true (lex source) [] := Token.run_lexFrom true 0 source
    rcases ending.breaks trailed (all ▸ run) with breaks | trivia
    · exact later _ (by rw [all, List.append_assoc]) breaks
    · have empty := others.eq_nil_of_trivia fun token member =>
        trivia token (List.mem_append_left _ member)
      simp [empty]
  rw [Token.joined_append, List.length_append] at behind
  rw [Node.placedAll_cons, spelled.print]
  cases node with
  | mk info segments =>
      rw [Node.placed_mk, List.forall_mem_append, List.forall_mem_cons]
      exact ⟨⟨own, inner⟩, behind⟩

/-- The trivia around parsed nodes mean the same on their own. -/
theorem Parsed.surrounded {scope : Scope} {nodes : List Node} {tokens rest : List Token}
    (parsed : Parsed scope nodes tokens rest) {source : Text} {before : List Token}
    (all : lex source = before ++ (tokens ++ rest))
    (breaks : Breaks before (tokens ++ rest)) :
    ∀ place ∈ Node.placedAll (joined before).length nodes,
      place.2.Surrounded source place.1 := by
  induction parsed generalizing before with
  | nil => simp
  | @leaf scope id kind first head lead core trail tokens rest nodes trivia starts
        inside reads trails others ih =>
      let group : Arrange.Group := ⟨lead, first :: core, first :: core, trail⟩
      have parted : lead ++ first :: (core ++ (trail ++ tokens)) ++ rest
          = group.source ++ (tokens ++ rest) := by
        simp [group, Arrange.Group.source]
      rw [parted] at all breaks
      refine others.surrounded_cons ⟨rfl, ?_, rfl, trivia⟩ (Item.ending reads)
        (.inl trails) all breaks ?_ fun front => ih
      · simp [Node.segments]
      · simp [Node.segments]
  | @block scope inner id kind first head lead header opening body closing trail tokens
        rest nodes members final trivia starts inside reads opens within closes others
        ihWithin ih =>
      let group : Arrange.Group :=
        ⟨lead, first :: header ++ (opening ++ body) ++ closing,
        first :: header ++ (opening ++ body) ++ closing, trail⟩
      have parted : lead
          ++ first :: (header ++ (opening ++ (body ++ (closing ++ (trail ++ tokens)))))
            ++ rest
          = group.source ++ (tokens ++ rest) := by
        simp [group, Arrange.Group.source]
      have ending : Arrange.Ending kind (tokens ++ rest) group :=
        .block closes (Item.kind_of_unbraced reads)
      have text := (printAll_body inner members).trans within.printAll
      have inward : lex source = (before ++ lead ++ (first :: header ++ opening))
          ++ (body ++ (closing ++ (trail ++ (tokens ++ rest)))) := by
        rw [all]
        simp
      have entered := ihWithin inward (Item.breaks_body reads opens
        (inward ▸ Token.run_lexFrom true 0 source))
      rw [parted] at all breaks
      refine others.surrounded_cons ⟨rfl, ?_, rfl, trivia⟩ ending closes.trailed all
        breaks ?_ fun front => ih
      · simp [Node.segments, group, text, closes.printAll]
      · simpa [Node.segments, Node.leading, Node.info, placedAll_body, closes.placedAll,
          Nat.add_assoc] using entered

/-- The trivia around all nodes of a file mean the same on their own. -/
theorem File.surrounded {source : Text} {top : Node} (file : File (lex source) top) :
    ∀ place ∈ top.placed 0, place.2.Surrounded source place.1 := by
  have printed := file.print
  cases file with
  | @intro nodes tokens tail parsed trivia all =>
      have start : Breaks [] (tokens ++ tail) := fun _ _ _ => .inl rfl
      have body := parsed.surrounded all start
      have nodeless (offset : Nat) : Segment.placedAll offset
          (if (joined tail).isEmpty then [] else [.text (joined tail)]) = [] := by
        split <;> simp
      rw [Node.placed_mk, List.forall_mem_cons]
      constructor
      · -- The file itself has no trivia around it.
        let group : Arrange.Group := ⟨[], lex source, lex source, []⟩
        have whole : lex source = [] ++ (group.source ++ []) := by
          simp [group, Arrange.Group.source]
        refine Arrange.Spelled.surrounded ⟨rfl, ?_, rfl, by simp [group]⟩ whole
          (fun _ _ _ => .inl rfl) (.inl rfl)
        rw [Node.print_mk, List.nil_append, List.append_nil] at printed
        exact printed
      · simp only [Segment.placedAll_append, placedAll_body, nodeless, List.append_nil]
        exact body

end Parser

/-- The trivia around a node mean the same out of context: the tokens of the leading
trivia of a node, read on their own, and those of its trailing trivia are the tokens of
the source text in that place. Leading trivia start at the start of a line; trailing
trivia hold no preprocessor line, and no line end but as their last token. -/
theorem Tree.surrounded_parse (source : Text) :
    ((parse source).top.placed 0).map Prod.snd = (parse source).top.family
      ∧ ∀ place ∈ (parse source).top.placed 0, place.2.Surrounded source place.1 :=
  ⟨Node.map_snd_placed 0 _, (Parser.parse_file source).surrounded⟩

/-- A preprocessor line in front of a declaration, and a comment with a hash sign behind
it. -/
theorem Tree.surrounded_parse_conditional :
    let source := utf8 "using A; // a\n\n#if B\nclass C \x7b \x7d // #c\n"
    ∃ place ∈ (parse source).top.placed 0, place.2.leading = utf8 "\n#if B\n"
      ∧ place.2.trailing = utf8 " // #c\n" ∧ place.2.Surrounded source place.1 := by
  intro source
  have found : ∃ place ∈ (parse source).top.placed 0, place.2.leading = utf8 "\n#if B\n"
      ∧ place.2.trailing = utf8 " // #c\n" := by
    decide +kernel
  obtain ⟨place, member, leading, trailing⟩ := found
  exact ⟨place, member, leading, trailing, (surrounded_parse source).2 place member⟩

end Lineup
