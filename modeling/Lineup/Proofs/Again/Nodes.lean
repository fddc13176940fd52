import Lineup.Proofs.Again.Body
import Lineup.Proofs.Content
import Lineup.Proofs.Syntax.Ownership
import Lineup.Proofs.Syntax.Surroundings
import Lineup.Proofs.Syntax.Unique

/-!
# Reading a rearranged file again

A file is orderly when every list that is to be changed is written line by line and no
node runs on into what follows it. The new text of an orderly file is read as the
rearranged tree: each node is found again with its own tokens, and what comes to stand
around it does not change how far it reaches.
-/

namespace Lineup

/-- Whether the node can be told from what stands around it: the attributes in front of
it are closed, and it does not start with a sign that continues an item. -/
def Node.isDelimited (node : Node) : Bool :=
  Span.closesAttributes node.kind node.head
    && ["=", ";"].all fun sign =>
      !(utf8 sign).isPrefixOf (Segment.printAll node.segments)

/-- Whether the lists of the node are left as they are or written line by line, and the
node can be told from what stands around it. -/
def Node.isOrderly (options : Options) (source : Text) (node : Node) : Bool :=
  Segment.areOrderly options source (AccessLevel.default node.kind) true node.segments
    && (node.kind == .compilationUnit || node.isDelimited)

theorem Node.isFirst_of_isDelimited {node : Node} (delimited : node.isDelimited = true)
    {first : Token} {more : Text}
    (spelled : Segment.printAll node.segments = first.text ++ more)
    (solid : first.isTrivia = false) : Span.IsFirst first := by
  have other (sign : String) (listed : sign ∈ ["=", ";"]) : first.is sign = false := by
    by_contra is
    rw [Bool.not_eq_false, Token.is, Bool.and_eq_true, beq_iff_eq] at is
    rw [isDelimited, Bool.and_eq_true, List.all_eq_true] at delimited
    have apart := delimited.2 sign listed
    rw [spelled, is.2, Bool.not_eq_true', Bool.eq_false_iff] at apart
    exact apart (List.isPrefixOf_iff_prefix.mpr (List.prefix_append _ _))
  exact ⟨solid, other "=" (by simp), other ";" (by simp)⟩

namespace Span

open Token (Run LineFed joined)

/-- Trailing trivia end with a line when their text does. -/
theorem Trailed.lineFed {trail after : List Token} (trailed : Trailed trail after)
    {lineStart : Bool} {behind : Text} (run : Run lineStart trail behind)
    (fed : Token.isLineFed (joined trail) = true) :
    LineFed trail := by
  have plain := Token.Plain.of_trivia
    (fun token member => (trailed.inline.1 token member).1) run.stands.formed
  exact (run.starting plain).isLineFed_iff.mp fed

/-- The trivia behind the start of a body end with a line when the text up to there
does, unless nothing follows. -/
theorem lineFed_opening {header opening rest : List Token} {lineStart : Bool}
    (bracket : ∃ front last, header = front ++ [last]
      ∧ (last.is openBrace = true ∨ last.is ";" = true))
    (opens : trailing (opening ++ rest) = opening.length)
    (run : Run lineStart (opening ++ rest) []) (present : rest ≠ [])
    (feeds : (joined header ++ joined opening).getLast? = some Byte.lineFeed) :
    LineFed opening := by
  obtain ⟨own, later⟩ := Token.run_append.mp run
  obtain ⟨trivia, ends⟩ := trailing_spec opens
  rcases ends with ⟨front, newline, rfl, is, -⟩ | ⟨inline, -⟩
  · have spelled := own.text_ne_nil newline (by simp)
    rw [Token.joined_append, Token.joined_cons, Token.joined_nil, List.append_nil,
      ← List.append_assoc, List.getLast?_append_of_ne_nil _ spelled] at feeds
    exact .intro front is feeds
  · exfalso
    obtain ⟨next, more, rfl⟩ := List.exists_cons_of_ne_nil present
    have following : joined (next :: more) ++ [] ≠ [] := by simp [later.1.text_ne_nil]
    have last := getLast?_joined own following trivia inline
    by_cases empty : joined opening = []
    · obtain ⟨front, final, rfl, opens⟩ := bracket
      have text : final.text = utf8 openBrace ∨ final.text = utf8 ";" := by
        simp only [Token.is, Bool.and_eq_true, beq_iff_eq] at opens
        exact opens.imp And.right And.right
      rw [empty, List.append_nil, Token.joined_append, Token.joined_cons,
        Token.joined_nil, List.append_nil] at feeds
      rcases text with text | text
      · rw [text, List.getLast?_append_of_ne_nil _ (by decide)] at feeds
        exact absurd feeds (by decide)
      · rw [text, List.getLast?_append_of_ne_nil _ (by decide)] at feeds
        exact absurd feeds (by decide)
    · rw [List.getLast?_append_of_ne_nil _ empty] at feeds
      have other := last Byte.lineFeed feeds
      cases other

end Span

namespace Parser

open Token (Run Swaps LineFed joined)
open Lineup.Span (Agree Clear Follow IsFirst)
open Lineup.Arrange (Group Rereads Rereadings Renews)

namespace Closes

variable {scope : Scope} {closing trail after others : List Token}
  {final : List Segment}

/-- Behind the last node of a body stands nothing that continues it. -/
theorem clear (closes : Closes scope closing trail after final) :
    Clear (closing ++ (trail ++ after)) := by
  have clear {tokens : List Token} (trivia : ∀ token ∈ tokens, token.isTrivia = true) :
      Clear tokens := by
    have absent : tokens.find? (fun token => !token.isTrivia) = none := by
      rw [List.find?_eq_none]
      intro token member
      simp [trivia token member]
    exact ⟨by simp [Span.nextIs, absent], by simp [Span.nextIs, absent]⟩
  cases closes with
  | brace braced trivia closing =>
      have first : IsFirst _ :=
        ⟨Span.solid_of_isBoundary (by simp [Span.isBoundary, closing]),
        Token.is_of_is closing (by decide), Token.is_of_is closing (by decide)⟩
      simpa using first.clear trivia _
  | text braced trivia => exact clear (by simpa using trivia)
  | nothing plain trivia => exact clear trivia

/-- Up to its closing brace, or to the end of the text, a body is followed by the same
tokens. -/
theorem agree (closes : Closes scope closing trail after final)
    (follow : Follow trail after others) :
    Agree (closing ++ (trail ++ after)) (closing ++ (trail ++ others)) := by
  cases closes with
  | @brace lead final trail rest brace braced trivia closing =>
      have solid : brace.isTrivia = false :=
        Span.solid_of_isBoundary (by simp [Span.isBoundary, closing])
      simpa using (Agree.solid solid (final ++ (trail ++ after))
        (final ++ (trail ++ others))).prepend lead
  | text =>
      cases follow with
      | line fed => exact absurd rfl fed.ne_nil
      | agree agree => exact agree.prepend closing
  | nothing =>
      cases follow with
      | line fed => exact absurd rfl fed.ne_nil
      | agree agree => exact agree

theorem reorganizeAll (closes : Closes scope closing trail after final)
    (options : Options) (source : Text) (fallback : AccessLevel) :
    (Segment.reorganizeAll options source fallback final).1 = final := by
  cases closes with
  | brace => simp [Segment.reorganizeAll, Segment.reorganize]
  | text => simp [Segment.reorganizeAll, Segment.reorganize]
  | nothing => simp [Segment.reorganizeAll]

end Closes

end Parser

theorem Segment.areOrderly_left {options : Options} {source : Text}
    {fallback : AccessLevel} {starts : Bool} {segments others : List Segment}
    (orderly : Segment.areOrderly options source fallback starts (segments ++ others)
      = true) :
    Segment.areOrderly options source fallback starts segments = true := by
  induction segments generalizing starts with
  | nil => rfl
  | cons segment segments ih =>
      cases segment with
      | text content => exact ih orderly
      | node child => exact ih orderly
      | list kind items =>
          rw [List.cons_append, Segment.areOrderly, Bool.and_eq_true] at orderly
          rw [Segment.areOrderly, Bool.and_eq_true]
          exact ⟨orderly.1, ih orderly.2⟩

namespace Arrange.Rereads

open Token (Run Swaps LineFed joined)
open Lineup.Span (Agree Clear Follow IsFirst)
open Lineup.Parser (Item Closes Parsed Scope)

variable {options : Options} {source : Text} {scope : Scope} {kind : NodeKind}
  {first : Token} {head lead trail after : List Token} {lineStart : Bool}

theorem leaf (id : Nat) {core : List Token}
    (trivia : ∀ token ∈ lead, token.isTrivia = true) (solid : first.isTrivia = false)
    (inside : (scope.isBraced && first.is closeBrace) = false)
    (reads : Item.next scope first (core ++ (trail ++ after))
      = .leaf kind head (core.length + 1))
    (trails : Span.trailing (trail ++ after) = trail.length)
    (run : Run lineStart (lead ++ first :: (core ++ (trail ++ after))) [])
    (delimited :
      (Node.mk { id, kind, leading := joined lead, trailing := joined trail, head }
        [.text (joined (first :: core))]).isDelimited = true) :
    Rereads options source scope after
      (.mk { id, kind, leading := joined lead, trailing := joined trail, head }
        [.text (joined (first :: core))])
      ⟨lead, first :: core, first :: core, trail⟩ := by
  have spelled : Segment.printAll [.text (joined (first :: core))]
      = first.text ++ joined core := by simp
  have starts := Node.isFirst_of_isDelimited delimited spelled solid
  have closed := (Bool.and_eq_true_iff.mp delimited).1
  constructor
  case leading => rfl
  case trivia => exact trivia
  case starts => exact ⟨first, core, core, rfl, rfl, starts⟩
  case fed =>
    have own :=
      (Token.run_append.mp (Token.run_append.mp (Token.run_append.mp run).2.2).2).1
    exact Span.Trailed.lineFed (.inl trails) own
  case swaps => exact .refl false _
  case reads =>
    intro lead others trivia follow
    have read := Parsed.leaf_follow id solid inside reads trails closed trivia follow
    simpa [Node.reorganize, Segment.reorganizeAll, Segment.reorganize,
      Node.withLeading] using read

/-- The body of a node: it is read again, and where it has to start a line, one starts
behind the brace. -/
theorem body {inner : Scope} {header opening closing : List Token} {members : List Node}
    {groups : List Group} {final : List Segment} {fallback : AccessLevel}
    (reads : Item.next scope first
      (header ++ (opening ++ (Group.sources groups ++ (closing ++ (trail ++ after)))))
        = .block kind head inner (header.length + 1))
    (opens : Span.trailing
      (opening ++ (Group.sources groups ++ (closing ++ (trail ++ after))))
        = opening.length)
    (row : Rereadings options source inner (closing ++ (trail ++ after)) members groups)
    (closes : Closes inner closing trail after final)
    (run : Run lineStart
      (opening ++ (Group.sources groups ++ (closing ++ (trail ++ after)))) [])
    (orderly : Segment.areOrderly options source fallback
      ((joined (first :: header) ++ joined opening).getLast? == some Byte.lineFeed)
        (inner.body members).segments = true) :
    ∃ out moved lined,
      Renews inner (closing ++ (trail ++ after)) (Group.sources groups) out moved lined
        ∧ (inner.body moved).segments
          = (Segment.reorganizeAll options source fallback
            (inner.body members).segments).1
        ∧ (lined = true → LineFed opening) := by
  have fed (present : Group.sources groups ++ (closing ++ (trail ++ after)) ≠ [])
      (feeds : ((joined (first :: header) ++ joined opening).getLast?
        == some Byte.lineFeed) = true) :
      LineFed opening :=
    Span.lineFed_opening (Item.header_ends reads) opens run present
      (beq_iff_eq.mp feeds)
  -- A line starts in front of the body when the text up to there ends with one.
  obtain ⟨start, runBody, begins⟩ : ∃ start,
      Run start (Group.sources groups ++ (closing ++ (trail ++ after))) []
        ∧ (((joined (first :: header) ++ joined opening).getLast? == some Byte.lineFeed)
          = true →
          start = true) := by
    by_cases empty : Group.sources groups ++ (closing ++ (trail ++ after)) = []
    · rw [empty]
      exact ⟨true, trivial, fun _ => rfl⟩
    · exact ⟨_, (Token.run_append.mp run).2, fun feeds =>
        (fed empty feeds).lineStartAfter_eq _⟩
  obtain ⟨out, moved, lined, renews, body, asked⟩ :=
    row.renews_body orderly runBody begins closes.clear
  refine ⟨out, moved, lined, renews, body, fun is => fed (fun empty => ?_) (asked is).1⟩
  cases row with
  | nil => exact (asked is).2 rfl
  | cons item =>
      obtain ⟨token, core, -, spelled, -⟩ := item.starts
      simp [Group.source, spelled] at empty

theorem block (id : Nat) {inner : Scope} {header opening closing : List Token}
    {members : List Node} {groups : List Group} {final : List Segment}
    (trivia : ∀ token ∈ lead, token.isTrivia = true) (solid : first.isTrivia = false)
    (inside : (scope.isBraced && first.is closeBrace) = false)
    (reads : Item.next scope first
      (header ++ (opening ++ (Group.sources groups ++ (closing ++ (trail ++ after)))))
        = .block kind head inner (header.length + 1))
    (opens : Span.trailing
      (opening ++ (Group.sources groups ++ (closing ++ (trail ++ after))))
        = opening.length)
    (row : Rereadings options source inner (closing ++ (trail ++ after)) members groups)
    (closes : Closes inner closing trail after final)
    (run : Run lineStart
      (lead ++ (first :: header
        ++ (opening ++ (Group.sources groups ++ (closing ++ (trail ++ after)))))) [])
    {info : NodeInfo}
    (is : info = { id, kind, leading := joined lead, trailing := joined trail, head })
    {segments : List Segment}
    (are : segments = .text (joined (first :: header) ++ joined opening)
      :: (inner.body members).segments ++ final)
    (delimited : (Node.mk info segments).isDelimited = true)
    (orderly : Segment.areOrderly options source (AccessLevel.default kind) true
      segments = true) :
    ∃ out, Rereads options source scope after (.mk info segments)
      ⟨lead, first :: header ++ (opening ++ (Group.sources groups ++ closing)),
        first :: header ++ (opening ++ (out ++ closing)), trail⟩ := by
  have spelled : Segment.printAll (Node.mk info segments).segments
      = first.text ++ (joined header ++ (joined opening
        ++ (Segment.printAll (inner.body members).segments
          ++ Segment.printAll final))) := by
    rw [Node.segments, are]
    simp
  have starts := Node.isFirst_of_isDelimited delimited spelled solid
  have closed := (Bool.and_eq_true_iff.mp delimited).1
  rw [are, List.cons_append, Segment.areOrderly] at orderly
  have runOpening := (Token.run_append.mp (Token.run_append.mp run).2).2
  obtain ⟨out, moved, lined, renews, body, line⟩ :=
    body reads opens row closes runOpening (Segment.areOrderly_left orderly)
  refine ⟨out, ?_⟩
  constructor
  case leading =>
    rw [is]
    rfl
  case trivia => exact trivia
  case starts => exact ⟨first, _, _, rfl, rfl, starts⟩
  case fed =>
    have own := (Token.run_append.mp (Token.run_append.mp (Token.run_append.mp
      (Token.run_append.mp runOpening).2).2).2).1
    rw [is]
    exact closes.trailed.lineFed own
  case swaps =>
    have within := renews.swaps.append_free (.refl false closing)
    have opened := (Swaps.refl false opening).append within line
    exact (Swaps.refl false (first :: header)).append_free opened
  case reads =>
    intro lead others trivia follow
    have agree := closes.agree follow
    rw [is] at closed
    have read := Parsed.block_follow id solid inside reads opens closes closed
      trivia follow (renews.reads _ agree)
      (renews.follow line (row.clear closes.clear) closes.clear agree)
    have texts :
        (Segment.reorganizeAll options source (AccessLevel.default kind) segments).1
        = .text (joined (first :: header) ++ joined opening)
          :: (inner.body moved).segments ++ final := by
      have shut := closes.reorganizeAll options source (AccessLevel.default kind)
      rw [Segment.reorganizeAll_fst] at body shut ⊢
      simp [are, body, shut, Segment.reorganize]
    rw [← texts] at read
    simpa [Node.reorganize, Node.withLeading, is] using read

end Arrange.Rereads

namespace Parser

open Token (Run Swaps LineFed joined)
open Lineup.Span (Agree Clear)
open Lineup.Arrange (Group Rereads Rereadings)

/-- A node of an orderly file, which is no whole file, can be told from what stands
around it. -/
theorem isDelimited_of_isOrderly {options : Options} {source : Text} {node : Node}
    (orderly : node.isOrderly options source = true) {scope : Scope} {first : Token}
    {rest : List Token} (is : (Item.next scope first rest).kind = node.kind) :
    node.isDelimited = true := by
  rw [Node.isOrderly, Bool.and_eq_true, Bool.or_eq_true, beq_iff_eq] at orderly
  exact orderly.2.resolve_left fun unit =>
    (Item.allows_next scope first rest).1 (is.trans unit)

/-- Parsed nodes are read again after the lists inside of them were rearranged. -/
theorem Parsed.rereadings {options : Options} {source : Text} {scope : Scope}
    {nodes : List Node} {tokens rest : List Token}
    (parsed : Parsed scope nodes tokens rest)
    (orderly : ∀ node ∈ Node.familyAll nodes, node.isOrderly options source = true)
    {lineStart : Bool} (run : Run lineStart (tokens ++ rest) []) :
    ∃ groups, tokens = Group.sources groups
      ∧ Rereadings options source scope rest nodes groups := by
  induction parsed generalizing lineStart with
  | nil => exact ⟨[], rfl, .nil⟩
  | @leaf scope id kind first head lead core trail tokens rest nodes trivia starts
        inside reads trails others ih =>
      rw [Node.familyAll_cons, List.forall_mem_append, Node.family_children,
        List.forall_mem_cons] at orderly
      have whole : lead ++ first :: (core ++ (trail ++ tokens)) ++ rest
          = lead ++ first :: (core ++ trail) ++ (tokens ++ rest) := by simp
      have parted : lead ++ first :: (core ++ (trail ++ tokens)) ++ rest
          = lead ++ first :: (core ++ (trail ++ (tokens ++ rest))) := by simp
      obtain ⟨groups, rfl, row⟩ := ih orderly.2 (Token.run_append.mp (whole ▸ run)).2
      rw [parted] at run
      have delimited := isDelimited_of_isOrderly orderly.1.1 (congrArg Item.kind reads)
      refine ⟨_ :: groups, ?_,
        .cons (.leaf id trivia starts inside reads trails run delimited) row⟩
      simp [Group.source]
  | @block scope inner id kind first head lead header opening body closing trail tokens
        rest nodes members final trivia starts inside reads opens within closes others
        ihWithin ih =>
      rw [Node.familyAll_cons, List.forall_mem_append, Node.family_children,
        List.forall_mem_cons, children_block closes] at orderly
      obtain ⟨⟨own, below⟩, later⟩ := orderly
      have parted : lead ++ first
          :: (header ++ (opening ++ (body ++ (closing ++ (trail ++ tokens))))) ++ rest
          = lead ++ (first :: header
            ++ (opening ++ (body ++ (closing ++ (trail ++ (tokens ++ rest)))))) := by
        simp
      rw [parted] at run
      have runBody :=
        (Token.run_append.mp (Token.run_append.mp (Token.run_append.mp run).2).2).2
      have runRest :=
        (Token.run_append.mp (Token.run_append.mp (Token.run_append.mp runBody).2).2).2
      obtain ⟨memberGroups, rfl, members⟩ :=
        ihWithin (by rwa [Node.familyAll_eq]) runBody
      obtain ⟨groups, rfl, row⟩ := ih later runRest
      have delimited := isDelimited_of_isOrderly own (congrArg Item.kind reads)
      obtain ⟨out, first⟩ :=
        Rereads.block id trivia starts inside reads opens members closes run rfl rfl
        delimited (Bool.and_eq_true_iff.mp own).1
      refine ⟨_ :: groups, ?_, .cons first row⟩
      simp [Group.source]

/-- The rearranged top node of an orderly file is read from new tokens, which the lexer
can read. -/
theorem File.reread {options : Options} {source : Text} {tokens : List Token}
    {top : Node} (file : File tokens top)
    (orderly : ∀ node ∈ top.family, node.isOrderly options source = true)
    (run : Run true tokens []) :
    ∃ new, File new (top.reorganize options source).1 ∧ Run true new [] := by
  cases file with
  | @intro nodes body tail parsed trivia all =>
      subst all
      rw [Node.family_children, List.forall_mem_cons, children_file] at orderly
      obtain ⟨groups, rfl, row⟩ :=
        parsed.rereadings (by rw [Node.familyAll_eq]; exact orderly.2) run
      have own : Segment.areOrderly options source
          (AccessLevel.default .compilationUnit) true
          ((Scope.items false).body nodes).segments = true :=
        Segment.areOrderly_left (Bool.and_eq_true_iff.mp orderly.1).1
      have ends : Closes (.items false) [] [] tail [] := .nothing rfl trivia
      obtain ⟨out, moved, lined, renews, segments, -⟩ :=
        row.renews_body own run (fun _ => rfl) ends.clear
      refine ⟨out ++ tail, ?_, ?_⟩
      · have whole := File.intro (renews.reads tail (.refl tail)) trivia rfl
        have still :
            (Segment.reorganizeAll options source (AccessLevel.default .compilationUnit)
              (if (joined tail).isEmpty then [] else [.text (joined tail)])).1
            = if (joined tail).isEmpty then [] else [.text (joined tail)] := by
          split <;> simp [Segment.reorganizeAll, Segment.reorganize]
        rw [Segment.reorganizeAll_fst] at segments still
        rw [segments] at whole
        simpa only [Node.reorganize, Segment.reorganizeAll_fst, List.map_append,
          still] using whole
      · exact renews.swaps true [] tail [] (fun _ => .start rfl) run

end Parser

end Lineup
