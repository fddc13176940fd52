import Lineup.Proofs.Again.Lined
import Lineup.Proofs.Seams.Body
import Lineup.Proofs.Token.Restart

/-!
# Reading a rearranged body again

The tokens of a body after its lists were rearranged are read as the rearranged nodes. A
list that is left as it is stays in front of what it was in front of. A list whose items
move has to start a line, and its items have to end with one each, so that all of them
can be put anywhere.
-/

namespace Lineup

/-- Whether the lists of consecutive segments are left as they are or written line by
line, where `starts` says whether a line starts in front of the segments. -/
def Segment.areOrderly (options : Options) (source : Text) (fallback : AccessLevel)
    (starts : Bool) :
    List Segment → Bool
  | [] => true
  | .text content :: segments =>
      Segment.areOrderly options source fallback
        (content.getLast? == some Byte.lineFeed) segments
  | .node child :: segments =>
      Segment.areOrderly options source fallback (Token.isLineFed child.trailing)
        segments
  | .list kind items :: segments =>
      (!(Arrange.list options source fallback kind items).2.isChanged
          || starts && items.all fun item => Token.isLineFed item.trailing)
        && Segment.areOrderly options source fallback false segments

theorem Token.lineEnd_ne_nil {text : Text} (fed : Token.isLineFed text = true) :
    text.lineEnd ≠ [] := by
  rw [Token.isLineFed] at fed
  cases last : (Token.lex text).getLast? with
  | none =>
      rw [last] at fed
      cases fed
  | some newline =>
      rw [last] at fed
      simp only [Option.any_some, Bool.and_eq_true, beq_iff_eq] at fed
      obtain ⟨front, all⟩ := List.getLast?_eq_some_iff.mp last
      exact (Text.lineEnd_ne_nil_iff text).mpr
        ⟨Byte.lineFeed, (Token.getLast?_of_lex all).trans fed.2, rfl⟩

namespace Span

/-- A token that starts an item: it does not continue an item in front of it. -/
structure IsFirst (token : Token) : Prop where
  solid : token.isTrivia = false
  equals : token.is "=" = false
  semicolon : token.is ";" = false

theorem IsFirst.clear {first : Token} (starts : IsFirst first) {lead : List Token}
    (trivia : ∀ token ∈ lead, token.isTrivia = true) (more : List Token) :
    Clear (lead ++ first :: more) := by
  have empty : lead.find? (fun token => !token.isTrivia) = none := by
    rw [List.find?_eq_none]
    intro token member
    simp [trivia token member]
  constructor
  · simp [nextIs, List.find?_append, empty, starts.solid, starts.equals]
  · simp [nextIs, List.find?_append, empty, starts.solid, starts.semicolon]

end Span

namespace Arrange

open Token (Run Swaps LineFed joined)
open TriviaLine (unfinished)
open Lineup.Span (Agree Clear Follow IsFirst)
open Lineup.Parser (Parsed Portable Scope)

theorem list_ne_nil {options : Options} {source : Text} {fallback : AccessLevel}
    {kind : ListKind} {items : List Node} (present : items ≠ []) :
    (list options source fallback kind items).1 ≠ [] := by
  rw [← List.length_pos_iff] at present ⊢
  rwa [list_length]

/-- The tokens of a node in the source text, where the tokens `after` follow them. When
the lists inside of the node are rearranged, its new tokens can be read in the place of
the old ones, and they are read as the rearranged node. -/
structure Rereads (options : Options) (source : Text) (scope : Scope)
    (after : List Token) (node : Node) (group : Group) : Prop where
  leading : node.leading = joined group.lead
  trivia : ∀ token ∈ group.lead, token.isTrivia = true
  starts : ∃ first core inner, group.core = first :: core ∧ group.inner = first :: inner
    ∧ IsFirst first
  fed : Token.isLineFed node.trailing = true → LineFed group.trail
  swaps : Swaps false group.core group.inner
  reads : ∀ lead others, (∀ token ∈ lead, token.isTrivia = true) →
    Follow group.trail after others →
    Parsed scope [(node.reorganize options source).1.withLeading (joined lead)]
      (lead ++ (group.inner ++ group.trail)) others

namespace Rereads

variable {options : Options} {source : Text} {scope : Scope} {after : List Token}
  {node : Node} {group : Group}

theorem clear_source (rereads : Rereads options source scope after node group)
    (more : List Token) :
    Clear (group.source ++ more) := by
  obtain ⟨first, core, inner, spelled, -, starts⟩ := rereads.starts
  simpa [Group.source,
    spelled] using starts.clear rereads.trivia (core ++ (group.trail ++ more))

/-- The item starts with the same token, whatever its tokens become. -/
theorem agree (rereads : Rereads options source scope after node group)
    (more others : List Token) :
    Agree (group.source ++ more) (group.moved ++ others) := by
  obtain ⟨first, core, inner, spelled, kept, starts⟩ := rereads.starts
  have solid := Agree.solid starts.solid (core ++ (group.trail ++ more))
    (inner ++ (group.trail ++ others))
  simpa [Group.source, Group.moved, spelled, kept] using solid.prepend group.lead

/-- An item that starts a line and ends with one can be put anywhere, with other trivia
in front of the line on which it starts. -/
theorem portable (rereads : Rereads options source scope after node group)
    (fed : Token.isLineFed node.trailing = true) (clear : Clear after)
    (run : Run true (group.source ++ after) []) {leading : Text}
    (last : unfinished (TriviaLine.split leading)
      = unfinished (TriviaLine.split node.leading))
    (trivia : ∀ token ∈ Token.lex leading, token.isTrivia = true) :
    Portable scope [(node.reorganize options source).1.withLeading leading]
      (Token.lex leading ++ (group.inner ++ group.trail)) := by
  obtain ⟨first, core, inner, spelled, kept, starts⟩ := rereads.starts
  have fed := rereads.fed fed
  constructor
  case reads =>
    intro others clear'
    have read := rereads.reads (Token.lex leading) others trivia
      (.line fed clear clear')
    rwa [Token.joined_lex] at read
  case clear =>
    intro others
    rw [kept]
    simpa using starts.clear trivia (inner ++ (group.trail ++ others))
  case fed => exact (fed.append group.inner).append (Token.lex leading)
  case run =>
    have solid : first.kind ≠ .newline := by
      intro is
      have ignored : first.isTrivia = true := by rw [Token.isTrivia, is]; rfl
      rw [starts.solid] at ignored
      cases ignored
    rw [Group.source, List.append_assoc, List.append_assoc] at run
    have swapped := rereads.swaps true group.lead (group.trail ++ after) []
      (by simp) run
    rw [← List.append_assoc, ← List.append_assoc] at swapped
    have own := fed.append (group.lead ++ group.inner) |>.run
      (Token.run_append.mp swapped).1 []
    -- The lines in front of the item can be exchanged, except for the one on which it
    -- starts.
    have faces : (Token.lex node.leading).map Token.face
        = group.lead.map Token.face := by
      rw [rereads.leading]
      exact (Token.run_append.mp run).1.map_face_lex
    rw [List.append_assoc, kept, List.cons_append] at own
    have moved :
        Run true (Token.lex node.leading ++ first :: (inner ++ group.trail)) [] :=
      own.congr (by rw [List.map_append, List.map_append, faces])
    rw [(TriviaLine.lines_split node.leading).run_append_iff solid, ← last,
      ← (TriviaLine.lines_split leading).run_append_iff solid] at moved
    rw [kept]
    exact moved

end Rereads

/-- Consecutive nodes with their tokens, in front of the tokens `rest`. -/
inductive Rereadings (options : Options) (source : Text) (scope : Scope)
    (rest : List Token) :
    List Node → List Group → Prop where
  | nil : Rereadings options source scope rest [] []
  | cons {node : Node} {nodes : List Node} {group : Group} {groups : List Group}
      (first : Rereads options source scope (Group.sources groups ++ rest) node group)
      (others : Rereadings options source scope rest nodes groups) :
      Rereadings options source scope rest (node :: nodes) (group :: groups)

namespace Rereadings

variable {options : Options} {source : Text} {scope : Scope} {rest : List Token}
  {nodes : List Node} {groups : List Group}

theorem clear (row : Rereadings options source scope rest nodes groups)
    (clear : Clear rest) :
    Clear (Group.sources groups ++ rest) := by
  cases row with
  | nil => exact clear
  | cons first =>
      rw [Group.sources_cons, List.append_assoc]
      exact first.clear_source _

theorem append {others : List Node}
    (row : Rereadings options source scope rest (nodes ++ others) groups) :
    ∃ front back, groups = front ++ back
      ∧ Rereadings options source scope (Group.sources back ++ rest) nodes front
      ∧ Rereadings options source scope rest others back := by
  induction nodes generalizing groups with
  | nil => exact ⟨[], groups, rfl, .nil, row⟩
  | cons node nodes ih =>
      cases row with
      | cons first row =>
          obtain ⟨front, back, rfl, own, later⟩ := ih row
          rw [Group.sources_append, List.append_assoc] at first
          exact ⟨_ :: front, back, rfl, .cons first own, later⟩

theorem lineFed (row : Rereadings options source scope rest nodes groups)
    (fed : ∀ node ∈ nodes, Token.isLineFed node.trailing = true)
    (present : nodes ≠ []) :
    LineFed (Group.sources groups) := by
  induction row with
  | nil => exact absurd rfl present
  | @cons node nodes group groups first row ih =>
      obtain ⟨own, others⟩ := List.forall_mem_cons.mp fed
      rw [Group.sources_cons]
      by_cases empty : nodes = []
      · subst empty
        cases row
        rw [Group.sources_nil, List.append_nil]
        exact ((first.fed own).append group.core).append group.lead
      · exact (ih others empty).append group.source

/-- Each of the items that start lines and end with them is portable. -/
theorem portable (row : Rereadings options source scope rest nodes groups)
    (fed : ∀ node ∈ nodes, Token.isLineFed node.trailing = true) (clear : Clear rest)
    (run : Run true (Group.sources groups ++ rest) []) :
    ∀ node ∈ nodes, (∀ token ∈ Token.lex node.leading, token.isTrivia = true) ∧
      ∀ leading, unfinished (TriviaLine.split leading)
        = unfinished (TriviaLine.split node.leading) →
        (∀ token ∈ Token.lex leading, token.isTrivia = true) →
        ∃ tokens, Portable scope
          [(node.reorganize options source).1.withLeading leading] tokens := by
  induction row with
  | nil => simp
  | @cons node nodes group groups first row ih =>
      obtain ⟨own, others⟩ := List.forall_mem_cons.mp fed
      rw [Group.sources_cons, List.append_assoc] at run
      obtain ⟨front, later⟩ := Token.run_append.mp run
      have line : LineFed group.source :=
        ((first.fed own).append group.core).append group.lead
      rw [line.lineStartAfter_eq] at later
      refine List.forall_mem_cons.mpr ⟨⟨?_, ?_⟩, ih others later⟩
      · rw [Group.source] at front
        have faces := (Token.run_append.mp front).1.map_face_lex
        intro token member
        rw [first.leading] at member
        have found : token.face ∈ group.lead.map Token.face :=
          faces ▸ List.mem_map_of_mem member
        obtain ⟨same, within, face⟩ := List.mem_map.mp found
        have kind : same.kind = token.kind := congrArg Prod.fst face
        rw [Token.isTrivia, ← kind]
        exact first.trivia same within
      · intro leading last trivia
        exact ⟨_, first.portable own (row.clear clear) run last trivia⟩

/-- A list that starts a line and whose items end with one each is portable after it was
rearranged. -/
theorem portable_list (row : Rereadings options source scope rest nodes groups)
    (fed : ∀ node ∈ nodes, Token.isLineFed node.trailing = true) (clear : Clear rest)
    (run : Run true (Group.sources groups ++ rest) []) (present : nodes ≠ [])
    (fallback : AccessLevel) (kind : ListKind) :
    ∃ tokens, Portable scope ((Arrange.list options source fallback kind nodes).1.map
      fun node => (node.reorganize options source).1) tokens := by
  have each := row.portable fed clear run
  apply Portable.exists_all
  · intro moved member
    obtain ⟨node, listed, rfl⟩ := List.mem_map.mp member
    obtain ⟨item, found, leading, rfl, tidies⟩ :=
      list_tidies options source fallback kind
      (fun item member => Token.lineEnd_ne_nil (fed item member)) node listed
    rw [(Node.reorganize_isInner options source).withLeading]
    exact (each item found).2 leading tidies.last
      (tidies.trivia fun other member => (each other member).1)
  · rw [ne_eq, List.map_eq_nil_iff]
    exact list_ne_nil present

end Rereadings

/-- The tokens `old` of a body, in front of the tokens `rest`, become the tokens `new`
when its lists are rearranged, and these are read as the given nodes. If the body is
`lined`, a line has to start in front of it. -/
structure Renews (scope : Scope) (rest old new : List Token) (nodes : List Node)
    (lined : Bool) : Prop where
  reads : ∀ others, Agree rest others → Parsed scope nodes new others
  clear : ∀ others, Clear others → Clear (new ++ others)
  agree : lined = false → ∀ others, Agree rest others →
    Agree (old ++ rest) (new ++ others)
  swaps : Swaps lined old new

namespace Renews

variable {options : Options} {source : Text} {scope : Scope} {rest old new : List Token}
  {nodes : List Node} {lined : Bool}

theorem nil (scope : Scope) (rest : List Token) : Renews scope rest [] [] [] false where
  reads _ _ := .nil
  clear _ clear := clear
  agree _ _ agree := agree
  swaps := .refl false []

/-- What comes to follow a node or the start of a body. -/
theorem follow (renews : Renews scope rest old new nodes lined)
    {trail others : List Token} (fed : lined = true → LineFed trail)
    (clear : Clear (old ++ rest)) (clear' : Clear rest) (agree : Agree rest others) :
    Follow trail (old ++ rest) (new ++ others) := by
  cases lined with
  | true => exact .line (fed rfl) clear (renews.clear others (agree.clear clear'))
  | false => exact .agree (renews.agree rfl others agree)

theorem cons (renews : Renews scope rest old new nodes lined) {node : Node}
    {group : Group} (first : Rereads options source scope (old ++ rest) node group)
    (fed : lined = true → LineFed group.trail) (clear : Clear (old ++ rest))
    (clear' : Clear rest) :
    Renews scope rest (group.source ++ old) (group.moved ++ new)
      ((node.reorganize options source).1 :: nodes) false := by
  constructor
  case reads =>
    intro others agree
    have read := first.reads group.lead (new ++ others) first.trivia
      (renews.follow fed clear clear' agree)
    have same : (node.reorganize options source).1.withLeading (joined group.lead)
        = (node.reorganize options source).1 := by
      rw [Node.withLeading_eq_self, Node.leading,
        (Node.reorganize_isInner options source).info]
      exact first.leading.symm
    rw [same] at read
    exact read.append (renews.reads others agree)
  case clear =>
    intro others _
    rw [List.append_assoc]
    exact (first.agree [] (new ++ others)).clear (first.clear_source [])
  case agree =>
    intro _ others _
    rw [List.append_assoc, List.append_assoc]
    exact first.agree _ _
  case swaps =>
    have own : Swaps false group.source group.moved :=
      (Swaps.refl false group.lead).append_free
        (first.swaps.append_free (.refl false group.trail))
    exact own.append renews.swaps fun asked =>
      ((fed asked).append group.inner).append group.lead

/-- Nodes in front of a body that does not have to start a line. -/
theorem row {items : List Node} {groups : List Group}
    (row : Rereadings options source scope (old ++ rest) items groups)
    (renews : Renews scope rest old new nodes false) (clear : Clear (old ++ rest))
    (clear' : Clear rest) :
    ∃ tokens, Renews scope rest (Group.sources groups ++ old) (tokens ++ new)
      (items.map (fun item => (item.reorganize options source).1) ++ nodes) false := by
  induction row with
  | nil => exact ⟨[], renews⟩
  | @cons item items group groups first row ih =>
      obtain ⟨tokens, later⟩ := ih
      rw [← List.append_assoc] at first
      have both := later.cons first
        nofun (by rw [List.append_assoc]; exact row.clear clear) clear'
      exact ⟨group.moved ++ tokens, by simpa using both⟩

/-- Portable nodes in front of a body that does not have to start a line. -/
theorem lines {items : List Node} {front tokens : List Token}
    (portable : Portable scope items tokens) (fed : LineFed front)
    (renews : Renews scope rest old new nodes false) (clear : Clear rest) :
    Renews scope rest (front ++ old) (tokens ++ new) (items ++ nodes) true where
  reads others agree :=
    (portable.reads _ (renews.clear others (agree.clear clear))).append
      (renews.reads others agree)
  clear others _ := by
    rw [List.append_assoc]
    exact portable.clear _
  agree := nofun
  swaps := (Swaps.lines fed (portable.fed.ended portable.run)).append_free renews.swaps

end Renews

/-- A list in front of a body that does not have to start a line. -/
theorem Rereadings.renews {options : Options} {source : Text} {scope : Scope}
    {rest old new : List Token} {items nodes : List Node} {groups : List Group}
    {fallback : AccessLevel} {kind : ListKind} {starts lineStart : Bool}
    (row : Rereadings options source scope (old ++ rest) items groups)
    (renews : Renews scope rest old new nodes false)
    (orderly : (!(Arrange.list options source fallback kind items).2.isChanged || starts
      && items.all fun item => Token.isLineFed item.trailing) = true)
    (run : Run lineStart (Group.sources groups ++ (old ++ rest)) [])
    (begins : starts = true → lineStart = true) (clear : Clear (old ++ rest))
    (clear' : Clear rest) :
    ∃ tokens lined, Renews scope rest (Group.sources groups ++ old) (tokens ++ new)
        (((Arrange.list options source fallback kind items).1.map fun item =>
          (item.reorganize options source).1) ++ nodes) lined
      ∧ (lined = true → starts = true ∧ items ≠ []) := by
  cases changed : (Arrange.list options source fallback kind items).2.isChanged with
  | false =>
      have rests := (isChanged_list_iff options source fallback kind items).mp changed
      obtain ⟨tokens, still⟩ := Renews.row row renews clear clear'
      rw [rests.list_eq]
      exact ⟨tokens, false, still, nofun⟩
  | true =>
      rw [changed, Bool.not_true, Bool.false_or, Bool.and_eq_true,
        List.all_eq_true] at orderly
      obtain ⟨starts, fed⟩ := orderly
      have present : items ≠ [] := by
        rintro rfl
        cases changed
      rw [begins starts] at run
      obtain ⟨tokens, portable⟩ := row.portable_list fed clear run present fallback kind
      exact ⟨tokens, true, .lines portable (row.lineFed fed present) renews clear',
        fun _ => ⟨starts, present⟩⟩

/-- The segments of a file or a namespace: using directives that follow each other share
a list. -/
inductive Gathered : List Node → List Segment → Prop where
  | nil : Gathered [] []
  | directives {items nodes : List Node} {segments : List Segment}
        (present : items ≠ [])
      (directives : ∀ item ∈ items, item.kind = .usingDirective)
      (next : startsWithList segments = false) (others : Gathered nodes segments) :
      Gathered (items ++ nodes) (.list .directives items :: segments)
  | node {node : Node} {nodes : List Node} {segments : List Segment}
        (other : node.kind ≠ .usingDirective)
      (others : Gathered nodes segments) :
        Gathered (node :: nodes) (.node node :: segments)

namespace Gathered

variable {nodes : List Node} {segments : List Segment}

theorem gather_eq (gathered : Gathered nodes segments) :
    Parser.gather nodes = segments := by
  induction gathered with
  | nil => rfl
  | @directives items nodes segments present directives next others ih =>
      induction items with
      | nil => exact absurd rfl present
      | cons item items more =>
          obtain ⟨is, later⟩ := List.forall_mem_cons.mp directives
          rw [List.cons_append, Parser.gather, if_pos is]
          by_cases empty : items = []
          · rw [empty, List.nil_append, ih]
            cases segments with
            | nil => rfl
            | cons segment segments =>
                cases segment with
                | text => rfl
                | node => rfl
                | list => cases next
          · rw [more empty later]
            rfl
  | node other others ih => rw [Parser.gather_other other, ih]

end Gathered

theorem gathered (nodes : List Node) : Gathered nodes (Parser.gather nodes) := by
  induction nodes with
  | nil => exact .nil
  | cons node nodes ih =>
      by_cases is : node.kind = .usingDirective
      · rw [Parser.gather, if_pos is]
        have one : ∀ item ∈ [node], item.kind = .usingDirective := by simpa using is
        generalize Parser.gather nodes = segments at ih
        cases ih with
        | nil => exact .directives (List.cons_ne_nil _ _) one rfl .nil
        | directives present directives next others =>
            exact .directives (List.cons_ne_nil _ _)
              (List.forall_mem_cons.mpr ⟨is, directives⟩) next others
        | node other others =>
            exact .directives (List.cons_ne_nil _ _) one rfl (.node other others)
      · rw [Parser.gather_other is]
        exact .node is ih

theorem startsWithList_reorganizeAll (options : Options) (source : Text)
    (fallback : AccessLevel) (segments : List Segment) :
    startsWithList (Segment.reorganizeAll options source fallback segments).1
      = startsWithList segments := by
  cases segments with
  | nil => rfl
  | cons segment segments =>
      rw [Segment.reorganizeAll]
      cases segment with
      | text => simp [Segment.reorganize, startsWithList]
      | node => simp [Segment.reorganize, startsWithList]
      | list => simp [Segment.reorganize, startsWithList]

theorem reorganize_list (options : Options) (source : Text) (fallback : AccessLevel)
    (kind : ListKind) (items : List Node) :
    ((Segment.list kind items).reorganize options source fallback).1
      = .list kind ((Arrange.list options source fallback kind items).1.map fun item =>
        (item.reorganize options source).1) := by
  rw [Segment.reorganize, Node.reorganizeAll_fst,
    (Node.reorganize_isInner options source).list]

theorem kind_of_mem_list {options : Options} {source : Text} {fallback : AccessLevel}
    {kind : ListKind} {items : List Node} {is : NodeKind}
    (kinds : ∀ item ∈ items, item.kind = is) :
    ∀ item ∈ (Arrange.list options source fallback kind items).1.map
      (fun item => (item.reorganize options source).1), item.kind = is := by
  rw [List.forall_mem_map]
  intro item member
  rw [Node.kind, (Node.reorganize_isInner options source).info, ← Node.kind]
  obtain ⟨others, perm, twins⟩ := list_twin options source fallback kind items
  obtain ⟨other, listed, twin⟩ := exists_of_forall₂ twins member
  rw [twin.kind]
  exact kinds other (perm.mem_iff.mp listed)

section Bodies

variable {options : Options} {source : Text} {scope : Scope} {rest : List Token}
  {nodes : List Node} {groups : List Group} {fallback : AccessLevel}
  {starts lineStart : Bool}

theorem Gathered.renews {segments : List Segment} (gathered : Gathered nodes segments)
    (row : Rereadings options source scope rest nodes groups)
    (orderly : Segment.areOrderly options source fallback starts segments = true)
    (run : Run lineStart (Group.sources groups ++ rest) [])
    (begins : starts = true → lineStart = true) (clear : Clear rest) :
    ∃ new others lined, Renews scope rest (Group.sources groups) new others lined
      ∧ Gathered others (Segment.reorganizeAll options source fallback segments).1
      ∧ (lined = true → starts = true ∧ nodes ≠ []) := by
  induction gathered generalizing groups starts lineStart with
  | nil =>
      cases row
      rw [Segment.reorganizeAll]
      exact ⟨[], [], false, .nil scope rest, .nil, nofun⟩
  | @node node nodes segments other gathered ih =>
      cases row with
      | @cons _ _ group groups first row =>
          rw [Group.sources_cons, List.append_assoc] at run
          obtain ⟨new, others, lined, renews, gathered, asked⟩ := ih row orderly
            (Token.run_append.mp run).2 fun line =>
              (((first.fed line).append group.core).append group.lead).lineStartAfter_eq
                lineStart
          refine ⟨_, _, false, renews.cons first (fun line => first.fed (asked line).1)
            (row.clear clear) clear, ?_, nofun⟩
          rw [Segment.reorganizeAll, Segment.reorganize]
          refine .node ?_ gathered
          rwa [Node.kind, (Node.reorganize_isInner options source).info]
  | @directives items nodes segments present directives next gathered ih =>
      obtain ⟨front, back, rfl, own, later⟩ := row.append
      rw [Segment.areOrderly, Bool.and_eq_true] at orderly
      rw [Group.sources_append, List.append_assoc] at run
      obtain ⟨new, others, lined, renews, gathered, asked⟩ := ih later orderly.2
        (Token.run_append.mp run).2 nofun
      obtain rfl : lined = false :=
        Bool.eq_false_iff.mpr fun line => nomatch (asked line).1
      obtain ⟨tokens, lined, both, started⟩ :=
        own.renews renews orderly.1 run begins (later.clear clear) clear
      rw [Group.sources_append]
      refine ⟨_, _, lined, both, ?_, fun line => ⟨(started line).1, by simp [present]⟩⟩
      rw [Segment.reorganizeAll, reorganize_list]
      refine .directives ?_ (kind_of_mem_list directives) ?_ gathered
      · rw [ne_eq, List.map_eq_nil_iff]
        exact list_ne_nil present
      · rw [startsWithList_reorganizeAll, next]

theorem Rereadings.renews_body (row : Rereadings options source scope rest nodes groups)
    (orderly : Segment.areOrderly options source fallback starts
      (scope.body nodes).segments = true)
    (run : Run lineStart (Group.sources groups ++ rest) [])
    (begins : starts = true → lineStart = true) (clear : Clear rest) :
    ∃ new others lined, Renews scope rest (Group.sources groups) new others lined
      ∧ (scope.body others).segments
        = (Segment.reorganizeAll options source fallback (scope.body nodes).segments).1
      ∧ (lined = true → starts = true ∧ nodes ≠ []) := by
  cases scope with
  | items braced =>
      rw [Scope.body_items] at orderly
      obtain ⟨new, others, lined, renews, gathered, asked⟩ :=
        (gathered nodes).renews row orderly run begins clear
      refine ⟨new, others, lined, renews, ?_, asked⟩
      rw [Scope.body_items, Scope.body_items]
      exact gathered.gather_eq
  | members =>
      rw [Scope.body_members] at orderly
      rw [Parser.Body.segments, Segment.areOrderly, Bool.and_eq_true] at orderly
      obtain ⟨tokens, lined, renews, asked⟩ :=
        row.renews (.nil .members rest) orderly.1 run begins clear clear
      rw [List.append_nil, List.append_nil, List.append_nil] at renews
      refine ⟨tokens, _, lined, renews, ?_, asked⟩
      rw [Scope.body_members, Scope.body_members, Parser.Body.segments,
        Parser.Body.segments, Segment.reorganizeAll, reorganize_list,
        Segment.reorganizeAll]

end Bodies

end Arrange

end Lineup
