import Lineup.Proofs.Seams.Sorted

/-!
# The tokens of a list

Consecutive nodes of a body, with the tokens that spell them, form a row. The items of a
list are such a row: all of them but the last one are closed, so that each can be moved.
When the list is rearranged, its tokens stand in front of whatever replaces the tokens
behind it exactly when the seams hold, those inside of the items and those between them.
-/

namespace Lineup

namespace Arrange

open Token (Run Stands Free Plain Replaces Follows joined content)

/-- How a node ends in front of the tokens `after`: with a bracket or a semicolon,
unchanged in front of a closing brace, at the end of the text, or, for a namespace
without braces, with its last declaration. -/
inductive Ending (kind : NodeKind) (after : List Token) (group : Group) : Prop where
  | closed (closed : group.Closed)
  | brace {token : Token} {more : List Token} (same : group.inner = group.core)
      (next : group.trail ++ after = token :: more)
        (closing : token.is closeBrace = true)
  | ended (empty : group.trail ++ after = [])
  | file (is : kind = .namespaceDeclaration) (empty : group.trail = [])
      (trivia : ∀ token ∈ after, token.isTrivia = true)

/-- Consecutive nodes of a body with the tokens that spell them, in front of the tokens
`rest`. -/
inductive Row (options : Options) (source : Text) (scope : Parser.Scope)
    (rest : List Token) :
    List Node → List Group → Prop where
  | nil : Row options source scope rest [] []
  | cons {node : Node} {nodes : List Node} {group : Group} {groups : List Group}
      (spells : Spells options source (Group.sources groups ++ rest) node group)
      (ending : Ending node.kind (Group.sources groups ++ rest) group)
      (listed : scope = .members
        ∨ node.kind = .usingDirective → node.kind ≠ .namespaceDeclaration
        ∧ ∀ first ∈ group.core.head?, first.is closeBrace = false)
      (row : Row options source scope rest nodes groups) :
      Row options source scope rest (node :: nodes) (group :: groups)

@[simp] theorem Group.sources_nil : Group.sources [] = [] := rfl

@[simp] theorem Group.sources_cons (group : Group) (groups : List Group) :
    Group.sources (group :: groups) = group.source ++ Group.sources groups := rfl

@[simp] theorem Group.sources_append (groups others : List Group) :
    Group.sources (groups ++ others) = Group.sources groups ++ Group.sources others :=
  List.flatMap_append

theorem Group.Joins.follows {group : Group} {after new : List Token}
    (joins : group.Joins after new) :
    Follows (group.trail ++ after) new := by
  cases joins with
  | replaces replaces => exact replaces.follows
  | closed _ _ follows => exact follows

theorem Group.Joins.plain {group : Group} {after new : List Token}
    (joins : group.Joins after new) :
    Plain new := by
  cases joins with
  | replaces replaces => exact replaces.plain
  | closed _ plain => exact plain

theorem Group.neutral_moved (group : Group) (lead : Token.sections group.lead = [])
    (own : Mark.Same (Token.sections group.inner) []
      ∧ Token.sections group.trail = []) :
    Mark.Same (Token.sections group.moved) [] := by
  rw [moved, Token.sections_append, Token.sections_append, lead, own.2, List.append_nil]
  exact own.1

namespace Spells

variable {options : Options} {source : Text} {after : List Token} {node : Node}
  {group : Group}

/-- The own tokens of a node and the tokens behind it are read at the start of a
line. -/
theorem runCore (spells : Spells options source after node group) :
    Run true (group.core ++ (group.trail ++ after)) [] := by
  obtain ⟨lineStart, run⟩ := spells.run
  have plain := spells.plain
  rw [Group.source, List.append_assoc, List.append_assoc] at run plain
  exact (Token.run_append.mp run).2.starting plain.right

/-- A node that stands on its own stands in front of all that joins it. -/
theorem extend (spells : Spells options source after node group)
    (ending : Ending node.kind after group) (kind : node.kind ≠ .namespaceDeclaration)
    {new : List Token} (joins : group.Joins after new)
    (own : Stands true group.inner []) :
    Stands true (group.inner ++ new) [] := by
  obtain ⟨run, later⟩ := Token.run_append.mp spells.runCore
  have closed (closed : group.Closed) : Stands true (group.inner ++ new) [] := by
    obtain ⟨core, inner, ends, kept, bracket⟩ := closed
    rw [kept] at own ⊢
    refine Token.stands_append.mpr ⟨own.bracket bracket _, ?_⟩
    rw [ends, Token.lineStartAfter_bracket bracket] at later
    rw [Token.lineStartAfter_bracket bracket]
    exact joins.follows false later
  cases ending with
  | closed is => exact closed is
  | file is => exact absurd is kind
  | brace same =>
      cases joins with
      | closed is => exact closed is
      | replaces replaces =>
          rw [same]
          refine Token.stands_append.mpr ⟨?_, replaces.follows _ later⟩
          rw [List.append_nil]
          exact replaces.before true group.core spells.runCore
  | ended absent =>
      cases joins with
      | closed is => exact closed is
      | replaces replaces =>
          rw [replaces.empty absent, List.append_nil]
          exact own

theorem plainTrail (spells : Spells options source after node group) :
    Plain group.trail :=
  spells.plain.left.right.right

/-- The tokens of a node print as the node after the lists inside of it were
rearranged. -/
theorem print_moved (spells : Spells options source after node group) :
    (node.reorganize options source).1.print = joined group.moved := by
  have info := (Node.reorganize_isInner options source).info node
  rw [Group.moved, Token.joined_append, Token.joined_append, ← spells.leading,
    ← spells.trailing, ← spells.printed, Node.leading, Node.trailing, ← info]
  cases (node.reorganize options source).1 with
  | mk info segments => simp [Node.info, Node.segments]

theorem repeats_moved (spells : Spells options source after node group) :
    Token.Repeats (node.sectionsHold options source = true) group.moved group.source :=
  (spells.repeats.append_right _).append_left _

theorem sections_trail (spells : Spells options source after node group) :
    Token.sections group.trail = [] := by
  rcases spells.trails with empty | trails
  · rw [empty]
    rfl
  · exact Token.sections_eq_nil fun token member =>
      ((Span.trailing_spec trails).1 token member).2

/-- A node whose sections are nested on their own leaves the sections around it as they
are. -/
theorem neutral (spells : Spells options source after node group)
    (holds : node.sectionsHold options source = true) (nested : node.isNested = true) :
    Mark.Same (Token.sections group.inner) [] := by
  have run := (Token.run_append.mp spells.runCore).1
  have own := of_decide_eq_true nested
  rw [spells.spelled, Token.lex, Token.sections_congr run.contentFrom] at own
  exact (spells.repeats.sections holds).trans own.same_nil

theorem plainMoved (spells : Spells options source after node group) :
    Plain group.moved :=
  spells.plain.left.left.append (spells.kept.append spells.plainTrail)

theorem trail_spec (spells : Spells options source after node group)
    (present : after ≠ []) :
    (∀ token ∈ group.trail, token.isTrivia = true) ∧ Free group.trail
      ∧ ((joined group.trail).lineEnd = []
        ∨ ∃ front newline, group.trail = front ++ [newline]
        ∧ newline.kind = .newline ∧ newline.text = (joined group.trail).lineEnd) := by
  have run := (Token.run_append.mp spells.runCore).2
  rcases spells.trails with empty | trails
  · rw [empty]
    exact ⟨by simp, .nil, .inl rfl⟩
  · exact ⟨fun token member => ((Span.trailing_spec trails).1 token member).1,
      (Span.trailing_free trails run present).1,
      Span.trailing_lineEnd trails run present⟩

/-- The tokens behind a closed node may be replaced by tokens that follow on from
them. -/
theorem joins (spells : Spells options source after node group) (closed : group.Closed)
    {tokens : List Token} (plain : Plain tokens) (follows : Follows after tokens)
    (more : ∃ token ∈ after, token.isTrivia = false) :
    group.Joins after (group.trail ++ tokens) := by
  refine .closed closed (spells.plainTrail.append plain) (fun lineStart run => ?_) more
  have present : after ≠ [] := by
    obtain ⟨token, member, -⟩ := more
    exact List.ne_nil_of_mem member
  obtain ⟨-, free, -⟩ := spells.trail_spec present
  exact Token.stands_append.mpr ⟨free _ _, follows _ (Token.run_append.mp run).2⟩

/-- With its leading trivia, a node that stands replaces the tokens that it was. -/
theorem replacesAll (spells : Spells options source after node group) {new : List Token}
    (joins : group.Joins after new) (stands : Stands true (group.inner ++ new) []) :
    Replaces (group.source ++ after) (group.lead ++ (group.inner ++ new)) := by
  have replaces := (spells.replaces new joins stands).prepend spells.plain.left.left
  rwa [Group.source, List.append_assoc, List.append_assoc]

end Spells

/-- The first significant token behind trivia. -/
theorem head_of_trivia {trivia rest more : List Token} {first token : Token}
    (ignored : ∀ each ∈ trivia, each.isTrivia = true)
    (significant : token.isTrivia = false)
    (same : trivia ++ first :: rest = token :: more) : first = token := by
  cases trivia with
  | nil => exact (List.cons.inj same).1
  | cons other trivia =>
      have is := ignored other (by simp)
      rw [(List.cons.inj same).1, significant] at is
      cases is

theorem isTrivia_of_is {token : Token} {spelling : String}
    (is : token.is spelling = true) :
    token.isTrivia = false := by
  simp only [Token.is, Bool.and_eq_true, Bool.not_eq_true'] at is
  exact is.1

namespace Row

variable {options : Options} {source : Text} {scope : Parser.Scope} {rest : List Token}
  {node : Node} {nodes : List Node} {group : Group} {groups : List Group}

/-- The nodes can be items of a list. -/
def Listed (scope : Parser.Scope) (nodes : List Node) : Prop :=
  ∀ node ∈ nodes, scope = .members ∨ node.kind = .usingDirective

/-- A node that an item of a list follows is closed. -/
theorem closed (row : Row options source scope rest (node :: nodes) (group :: groups))
    (listed : ∀ next ∈ nodes.head?, scope = .members ∨ next.kind = .usingDirective)
    (more : nodes ≠ []) :
    group.Closed ∧ ∃ token ∈ Group.sources groups ++ rest, token.isTrivia = false := by
  cases row with
  | cons spells ending _ row =>
  cases row with
  | nil => exact absurd rfl more
  | @cons next nodes other groups spellsNext _ there row =>
      obtain ⟨-, notBrace⟩ := there (listed next (by simp))
      obtain ⟨first, core, -, spelled, -, significant⟩ := spellsNext.starts
      have behind : first ∈ Group.sources (other :: groups) ++ rest := by
        simp [Group.source, spelled]
      have trail := (spells.trail_spec (List.ne_nil_of_mem behind)).1
      refine ⟨?_, first, behind, significant⟩
      cases ending with
      | closed closed => exact closed
      | file _ _ trivia =>
          rw [trivia first behind] at significant
          cases significant
      | ended absent => simp [Group.source, spelled] at absent
      | @brace token others same ahead closing =>
          have joined : (group.trail ++ other.lead) ++ first :: (core ++ (other.trail
              ++ (Group.sources groups ++ rest))) = token :: others := by
            rw [← ahead]
            simp [Group.source, spelled]
          have trivia : ∀ each ∈ group.trail ++ other.lead, each.isTrivia = true :=
            List.forall_mem_append.mpr ⟨trail, spellsNext.trivia⟩
          have same := head_of_trivia trivia (isTrivia_of_is closing) joined
          have starts := notBrace first (by simp [spelled])
          rw [same, closing] at starts
          cases starts

/-- The tokens of consecutive items whose lists inside were rearranged. -/
def moved (groups : List Group) : List Token :=
  groups.flatMap Group.moved

@[simp] theorem moved_nil : moved [] = [] := rfl

@[simp] theorem moved_cons (group : Group) (groups : List Group) :
    moved (group :: groups) = group.moved ++ moved groups := rfl

theorem plain_moved (row : Row options source scope rest nodes groups) :
    Plain (moved groups) := by
  induction row with
  | nil => exact fun _ member => nomatch member
  | cons spells _ _ _ ih => exact spells.plainMoved.append ih

theorem printAll_moved (row : Row options source scope rest nodes groups) :
    Node.printAll (Node.reorganizeAll options source nodes).1
      = joined (moved groups) := by
  induction row with
  | nil => simp [Node.reorganizeAll]
  | cons spells _ _ _ ih =>
      rw [Node.reorganizeAll, Node.printAll_cons, ih, moved_cons, Token.joined_append,
        spells.print_moved]

theorem repeats_moved (row : Row options source scope rest nodes groups) :
    Token.Repeats (Node.sectionsHoldAll options source nodes = true) (moved groups)
      (Group.sources groups) := by
  induction row with
  | nil => exact .refl _ _
  | cons spells _ _ _ ih =>
      apply (spells.repeats_moved.append ih).imp
      rw [Node.sectionsHoldAll, Bool.and_eq_true]
      exact id

/-- Items whose sections are nested on their own leave the sections around them as they
are. -/
theorem neutral (row : Row options source scope rest nodes groups)
    (holds : Node.sectionsHoldAll options source nodes = true)
    (nested : nodes.all Node.isNested = true) :
    ∀ group ∈ groups, Mark.Same (Token.sections group.inner) []
      ∧ Token.sections group.trail = [] := by
  induction row with
  | nil => simp
  | cons spells _ _ _ ih =>
      rw [Node.sectionsHoldAll, Bool.and_eq_true] at holds
      rw [List.all_cons, Bool.and_eq_true] at nested
      exact List.forall_mem_cons.mpr
        ⟨⟨spells.neutral holds.1 nested.1, spells.sections_trail⟩, ih holds.2 nested.2⟩

/-- The seams inside of the items hold when each item stands on its own. -/
theorem seamsHoldAll_iff (row : Row options source scope rest nodes groups) :
    Node.seamsHoldAll options source nodes = true
      ↔ ∀ group ∈ groups, Stands true group.inner [] := by
  induction row with
  | nil => simp [Node.seamsHoldAll]
  | cons spells _ _ _ ih =>
      have own := spells.seams [] (.replaces (.nothing _))
      rw [Token.joined_nil, List.append_nil] at own
      rw [Node.seamsHoldAll, Bool.and_eq_true, own, ih, List.forall_mem_cons]

/-- Items that stay in their places stand in front of whatever replaces the tokens
behind them. -/
theorem follows (row : Row options source scope rest nodes groups)
    (listed : Listed scope nodes) {new : List Token} (replaces : Replaces rest new)
    (alone : ∀ group ∈ groups, Stands true group.inner []) :
    Follows (Group.sources groups ++ rest) (moved groups ++ new) := by
  induction row with
  | nil => exact replaces.follows
  | @cons node nodes group groups spells ending here row ih =>
      obtain ⟨own, others⟩ := List.forall_mem_cons.mp alone
      have later := ih (fun each member => listed each (by simp [member])) others
      have joins : group.Joins (Group.sources groups ++ rest)
          (group.trail ++ (moved groups ++ new)) := by
        by_cases empty : nodes = []
        · subst empty
          cases row
          exact .replaces (replaces.prepend spells.plainTrail)
        · obtain ⟨closed, more⟩ := Row.closed (.cons spells ending here row)
            (fun next member => listed next (by simp [List.mem_of_mem_head? member]))
              empty
          exact spells.joins closed (row.plain_moved.append replaces.plain) later more
      have stands := spells.extend ending (here (listed node (by simp))).1 joins own
      have whole := (spells.replacesAll joins stands).follows
      simpa [Group.moved] using whole

theorem alone_of_stands (row : Row options source scope rest nodes groups)
    {new : List Token} {lineStart : Bool}
    (stands : Stands lineStart (moved groups ++ new) []) :
    ∀ group ∈ groups, Stands true group.inner [] := by
  induction row generalizing lineStart with
  | nil => simp
  | cons spells _ _ _ ih =>
      simp only [moved_cons, Group.moved, List.append_assoc] at stands
      obtain ⟨own, later⟩ := Token.stands_append.mp (Token.stands_append.mp stands).2
      refine List.forall_mem_cons.mpr ⟨?_, ih (Token.stands_append.mp later).2⟩
      exact (own.cut (.nothing _)).starting spells.kept

/-- An item of a list with the tokens of its entry; `text` is the text of the last
item. -/
theorem carried_head
    (row : Row options source scope rest (node :: nodes) (group :: groups))
    (listed : Listed scope (node :: nodes)) {entry : Entry} {lead : List Token}
    (backed : Backed entry { group with lead }) {last : Nat} {text : Text}
    (isLast : entry.position = last ↔ nodes = [])
    (printed : nodes = [] → ∃ lead, Free lead
      ∧ text = joined (lead ++ (group.inner ++ group.trail))) :
    Carried rest last text entry { group with lead } := by
  have closed := row.closed fun next member =>
    listed next (by simp [List.mem_of_mem_head? member])
  cases row with
  | cons spells ending here row =>
  refine { toBacked := backed, starts := ?_, plainInner := spells.kept,
           plainTrail := spells.plainTrail, movable := fun other => ?_, final :=
             fun is => ?_ }
  · obtain ⟨first, -, inner, -, spelled, significant⟩ := spells.starts
    exact ⟨first, inner, spelled, significant,
      (spells.kept first (by simp [spelled])).1⟩
  · have more : nodes ≠ [] := fun empty => other (isLast.mpr empty)
    obtain ⟨⟨core, inner, ends, kept, bracket⟩, token, behind, -⟩ := closed more
    obtain ⟨-, free, lineEnd⟩ := spells.trail_spec (List.ne_nil_of_mem behind)
    exact ⟨⟨inner, _, kept, bracket⟩, free, lineEnd⟩
  · have empty := isLast.mp is
    refine ⟨printed empty, fun new replaces own => ?_⟩
    subst empty
    cases row
    exact spells.extend ending (here (listed node (by simp))).1 (.replaces replaces) own

end Row

theorem Spells.backed_whole {options : Options} {source : Text} {after : List Token}
    {node : Node} {group : Group} (spells : Spells options source after node group)
    (noDirective : ∀ line ∈ TriviaLine.split node.leading, line.hasDirective = false)
    (position : Nat) :
    Backed { node := (node.reorganize options source).1, position,
             lines := TriviaLine.split node.leading } group := by
  obtain ⟨front, own, parted, empty, -, backed⟩ :=
    spells.backed (List.nil_append _) (by simp) noDirective position
  obtain ⟨lineStart, run⟩ := spells.run
  rw [Group.source, parted, List.append_assoc, List.append_assoc] at run
  rw [(Token.run_append.mp run).1.eq_nil empty, List.nil_append] at parted
  rwa [← parted] at backed

/-- The text of a node without preprocessor lines in front starts with free trivia. -/
theorem Spells.print {options : Options} {source : Text} {after : List Token}
    {node : Node} {group : Group} (spells : Spells options source after node group)
    (noDirective : ∀ line ∈ TriviaLine.split node.leading, line.hasDirective = false) :
    ∃ lead, Free lead
      ∧ (node.reorganize options source).1.print
        = joined (lead ++ (group.inner ++ group.trail)) := by
  have backed := spells.backed_whole noDirective 0
  refine ⟨TriviaLine.tokens (TriviaLine.split node.leading),
    TriviaLine.free_tokens backed.free, ?_⟩
  have leading := (TriviaLine.lines_split node.leading).joined_eq.trans
    (Token.joined_lex node.leading)
  rw [spells.print_moved, Group.moved, Token.joined_append, ← spells.leading,
    Token.joined_append _ (group.inner ++ group.trail), TriviaLine.joined_tokens,
    leading]

namespace Row

variable {options : Options} {source : Text} {scope : Parser.Scope} {rest : List Token}
  {node : Node} {nodes : List Node} {group : Group} {groups : List Group}

/-- The entries of a list from a position on. -/
theorem carried (row : Row options source scope rest nodes groups)
    (listed : Listed scope nodes)
    (noDirective : ∀ node ∈ nodes,
      ∀ line ∈ TriviaLine.split node.leading, line.hasDirective = false)
    {last position : Nat} {text : Text} (size : last + 1 = position + nodes.length)
    (spelled : nodes ≠ [] →
      text = Node.printAll
        ((Node.reorganizeAll options source nodes).1.drop (nodes.length - 1))) :
    List.Forall₂ (Carried rest last text)
      (entriesFrom position (Node.reorganizeAll options source nodes).1) groups := by
  induction row generalizing position with
  | nil =>
      rw [Node.reorganizeAll]
      exact .nil
  | @cons node nodes group groups spells ending here row ih =>
      rw [Node.reorganizeAll]
      have info := (Node.reorganize_isInner options source).info node
      have plainLines := noDirective node (by simp)
      have backed := spells.backed_whole plainLines position
      rw [List.length_cons] at size
      rw [Node.reorganizeAll] at spelled
      rw [entriesFrom, Node.leading, info, ← Node.leading]
      refine .cons (carried_head (.cons spells ending here row) listed backed ?_ ?_)
        (ih (fun each member => listed each (by simp [member]))
          (fun each member => noDirective each (by simp [member])) (by omega)
            fun more => ?_)
      · change position = last ↔ nodes = []
        rw [← List.length_eq_zero_iff]
        omega
      · rintro rfl
        rw [spelled (by simp)]
        simpa [Node.reorganizeAll] using spells.print plainLines
      · obtain ⟨next, nodes, rfl⟩ := List.exists_cons_of_ne_nil more
        exact spelled (by simp)

theorem hasDirective_of_isReorderable {items : List Node} {position : Nat}
    (reorderable : isReorderable (entriesFrom position items) = true) :
    ∀ item ∈ items, ∀ line ∈ TriviaLine.split item.leading,
      line.hasDirective = false := by
  induction items generalizing position with
  | nil => simp
  | cons item items ih =>
      simp only [entriesFrom, isReorderable, List.all_cons, Bool.and_eq_true,
        List.all_eq_true, Bool.not_eq_true'] at reorderable
      have later : isReorderable (entriesFrom (position + 1) items) = true := by
        simpa [isReorderable] using reorderable.2
      exact List.forall_mem_cons.mpr ⟨reorderable.1, ih later⟩

/-- The entries of a list that can be sorted: the header in front of them stands in
front of everything, and the rest of the leading trivia travels with the first item. -/
theorem entries_carried
    (row : Row options source scope rest (node :: nodes) (group :: groups))
    (listed : Listed scope (node :: nodes)) (more : nodes ≠ [])
    (reorderable : isReorderable
      (entries (Node.reorganizeAll options source (node :: nodes)).1).2 = true) :
    ∃ front own, group.lead = front ++ own
      ∧ joined front
        = TriviaLine.joined
          (entries (Node.reorganizeAll options source (node :: nodes)).1).1
      ∧ (∀ lineStart, Run lineStart (Group.sources (group :: groups) ++ rest) [] →
        ∀ behind, Stands lineStart front behind)
      ∧ List.Forall₂
        (Carried rest nodes.length (Node.printAll
          ((Node.reorganizeAll options source (node :: nodes)).1.drop nodes.length)))
        (entries (Node.reorganizeAll options source (node :: nodes)).1).2
        ({ group with lead := own } :: groups) := by
  have whole := row
  cases row with
  | cons spells ending here row =>
      have info := (Node.reorganize_isInner options source).info node
      have leading : (node.reorganize options source).1.leading = node.leading := by
        rw [Node.leading, info, Node.leading]
      have made := TriviaLine.lines_split node.leading
      simp only [Node.reorganizeAll, entries, leading] at reorderable ⊢
      rw [isReorderable, List.all_cons, Bool.and_eq_true,
        ← isReorderable] at reorderable
      have others : ∀ each ∈ nodes, ∀ line ∈ TriviaLine.split each.leading,
          line.hasDirective = false := by
        intro each member
        have info := (Node.reorganize_isInner options source).info each
        have plainLines := hasDirective_of_isReorderable reorderable.2
          (each.reorganize options source).1
          (by rw [Node.reorganizeAll_fst]; exact List.mem_map_of_mem member)
        rwa [Node.leading, info, ← Node.leading] at plainLines
      obtain ⟨front, own, parted, text, ends, backed⟩ :=
        spells.backed (TriviaLine.splitHeader_append _) made.splitHeader_complete
          (by simpa using reorderable.1) 0
      refine ⟨front, own, parted, text, fun lineStart run behind => ?_,
        .cons (whole.carried_head listed backed ?_ fun absent => absurd absent more)
          (row.carried (fun each member => listed each (by simp [member])) others
            (Nat.add_comm _ _) fun _ => ?_)⟩
      · rcases ends with rfl | ⟨before, newline, rfl, is⟩
        · trivial
        have all : Group.sources (group :: groups) ++ rest = (before ++ [newline])
            ++ (own ++ (group.core
              ++ (group.trail ++ (Group.sources groups ++ rest)))) := by
          simp [Group.source, parted]
        rw [all] at run
        obtain ⟨first, later⟩ := Token.run_append.mp run
        refine first.shut (by simp [Token.isShut, is, TokenKind.isBlank])
          (fun absent => ?_) behind
        obtain ⟨token, core, -, spelled, -⟩ := spells.starts
        have empty := later.eq_nil (by simpa using absent)
        simp [spelled] at empty
      · change 0 = nodes.length ↔ nodes = []
        rw [eq_comm, List.length_eq_zero_iff]
      · obtain ⟨next, nodes, rfl⟩ := List.exists_cons_of_ne_nil more
        rfl

theorem keeps_moved {slots : List Slot} (keeps : List.Forall₂ Keeps groups slots) :
    content (Slot.all slots) = content (moved groups) ∧ Plain (Slot.all slots) := by
  induction keeps with
  | nil => exact ⟨rfl, fun _ member => nomatch member⟩
  | cons first _ ih =>
      rw [Slot.all_cons, moved_cons, Token.content_append, Token.content_append,
        first.said, ih.1]
      exact ⟨rfl, first.plain.append ih.2⟩

theorem content_moved_perm {others : List Group} (same : groups.Perm others) :
    (content (moved groups)).Perm (content (moved others)) := by
  have said (groups : List Group) :
      content (moved groups) = groups.flatMap fun group => content group.moved := by
    induction groups with
    | nil => rfl
    | cons group groups ih => simp [ih]
  rw [said, said]
  exact same.flatMap_right _

/-- What stands in front of an item that can move marks no sections. -/
theorem sections_lead {last : Nat} {text : Text} {entries : List Entry}
    (carried : List.Forall₂ (Carried rest last text) entries groups)
    (reorderable : isReorderable entries = true) :
    ∀ group ∈ groups, Token.sections group.lead = [] := by
  induction carried with
  | nil => simp
  | cons first _ ih =>
      simp only [isReorderable, List.all_cons, Bool.and_eq_true] at reorderable
      refine List.forall_mem_cons.mpr ⟨first.sections_lead ?_, ih reorderable.2⟩
      simpa using reorderable.1

theorem exists_sorted {last : Nat} {text : Text} {items : List Node}
    {sorted : List Entry} (perm : sorted.Perm (entries items).2)
    (carried : List.Forall₂ (Carried rest last text) (entries items).2 groups) :
    ∃ others, List.Forall₂ (Carried rest last text) sorted others ∧ others.Perm groups
      ∧ (countMoved 0 sorted = 0 → others = groups) := by
  by_cases still : countMoved 0 sorted = 0
  · rw [(countMoved_perm_iff perm).mp still]
    exact ⟨groups, carried, .refl _, fun _ => rfl⟩
  · obtain ⟨others, carried, same⟩ := List.perm_comp_forall₂ perm carried
    exact ⟨others, carried, same, fun empty => absurd empty still⟩

theorem sections_moved (groups : List Group) :
    Token.sections (moved groups) = groups.flatMap fun group =>
      Token.sections group.moved :=
  List.filterMap_flatMap

/-- The seams of a list that is sorted. -/
theorem seamsHold_iff (options : Options) (source : Text) (fallback : AccessLevel)
    (kind : ListKind) {items : List Node} {last : Nat} (size : items.length = last + 1)
    (positive : 0 < last) (reorderable : isReorderable (entries items).2 = true)
    (new : List Token) :
    Arrange.seamsHold options source fallback kind items (joined new) = true ↔
      countMoved 0 (order options source fallback kind (entries items).2) = 0 ∨
        Seamless (order options source fallback kind (entries items).2)
          (list options source fallback kind items).1 last
            (Node.printAll (items.drop last)) new := by
  have several : ¬ last + 1 < 2 := by omega
  simp only [Arrange.seamsHold, Seamless, size, Nat.add_sub_cancel, reorderable,
    Bool.not_true, several, decide_false, Bool.or_false, Bool.false_or, Bool.or_eq_true,
    Bool.and_eq_true, beq_iff_eq]

theorem arranged_sorted
    (row : Row options source scope rest (node :: nodes) (group :: groups))
    (listed : Listed scope (node :: nodes)) (more : nodes ≠ []) (fallback : AccessLevel)
    (kind : ListKind) :
    let items := (Node.reorganizeAll options source (node :: nodes)).1
    isReorderable (entries items).2 = true →
    ∃ out, Node.printAll (list options source fallback kind items).1 = joined out
      ∧ Token.Repeats (Node.sectionsHoldAll options source (node :: nodes) = true
          ∧ Arrange.sectionsHold options source fallback kind (node :: nodes)
            = true) out
        (moved (group :: groups)) ∧ Plain out
      ∧ ∀ new, Replaces rest new → ∀ lineStart,
        Run lineStart (Group.sources (group :: groups) ++ rest) [] →
        (Stands lineStart (out ++ new) []
          ↔ (∀ each ∈ group :: groups, Stands true each.inner [])
          ∧ Arrange.seamsHold options source fallback kind items (joined new)
            = true) := by
  intro items reorderable
  have size : items.length = nodes.length + 1 := by
    simp only [items, Node.reorganizeAll_fst, List.length_map, List.length_cons]
  have positive : 0 < nodes.length := List.length_pos_iff.mpr more
  have sorts : ¬ (items.length < 2 ∨ isReorderable (entries items).2 = false) := by
    rw [size, reorderable]
    simp only [Bool.true_eq_false, or_false]
    omega
  obtain ⟨front, own, parted, header, stands, carried⟩ :=
    row.entries_carried listed more reorderable
  have lead := sections_lead carried reorderable
  obtain ⟨others, carried, same, unmoved⟩ := exists_sorted
    (order_perm options source fallback kind (entries items).2) carried
  have positions := (order_perm options source fallback kind (entries items).2).map
    Entry.position
  rw [entries_positions, size] at positions
  obtain ⟨slots, keeps, printed, decided⟩ :=
    sorted_stands carried positions positive (separates kind) (entries items).1
  have padded : (list options source fallback kind items).1 = pad (separates kind)
      (entries items).1 (settle
        (order options source fallback kind (entries items).2)) := by
    rw [list_fst, if_neg sorts]
  rw [← padded] at printed decided
  obtain ⟨said, plain⟩ := keeps_moved keeps
  refine ⟨front ++ Slot.all slots, ?_, ?_, ?_, fun new replaces lineStart run => ?_⟩
  · rw [printed, Token.joined_append, header]
  · have whole : moved (group :: groups)
        = front ++ moved ({ group with lead := own } :: groups) := by
      simp [Group.moved, parted]
    rw [whole]
    refine Token.Repeats.append_left
      ⟨said ▸ content_moved_perm same, fun holds => ?_⟩ front
    rw [Token.sections_congr said]
    have decided :
        countMoved 0 (order options source fallback kind (entries items).2) = 0
        ∨ (node :: nodes).all Node.isNested = true := by
      have several : ¬ nodes.length + 1 < 2 := by omega
      have holds := holds.2
      change (items.length < 2 || !isReorderable (entries items).2 || _ || _)
          = true at holds
      simpa only [size, several, decide_false, reorderable, Bool.not_true,
        Bool.false_or, Bool.or_eq_true, beq_iff_eq] using holds
    rcases decided with still | nested
    · rw [unmoved still]
      exact .refl _
    · have inner := row.neutral holds.1 nested
      have neutral : ∀ each ∈ { group with lead := own } :: groups,
          Mark.Same (Token.sections each.moved) [] := by
        intro each member
        refine each.neutral_moved (lead each member) ?_
        rcases List.mem_cons.mp member with rfl | member
        · exact inner group List.mem_cons_self
        · exact inner each (List.mem_cons_of_mem _ member)
      rw [sections_moved, sections_moved]
      have moved := Mark.Same.flatMap_nil fun each member =>
        neutral each (same.mem_iff.mp member)
      exact moved.trans (Mark.Same.flatMap_nil neutral).symm
  · have whole := row.plain_moved
    rw [moved_cons, Group.moved, parted] at whole
    exact whole.left.left.left.append plain
  · have later := (replaces.follows _ (Token.run_append.mp run).2).starting
      replaces.plain
    have inner : (∀ each ∈ others, Stands true each.inner [])
        ↔ ∀ each ∈ group :: groups, Stands true each.inner [] := by
      simp only [same.mem_iff, List.forall_mem_cons]
    rw [List.append_assoc, Token.stands_append, and_iff_right (stands lineStart run _),
      decided new later replaces, inner,
      seamsHold_iff options source fallback kind size positive reorderable]

/-- The tokens of a rearranged list stand in front of whatever replaces the tokens
behind the list exactly when the seams hold. -/
theorem arranged (row : Row options source scope rest nodes groups)
    (listed : Listed scope nodes) (fallback : AccessLevel) (kind : ListKind) :
    ∃ out, Node.printAll (list options source fallback kind
          (Node.reorganizeAll options source nodes).1).1 = joined out
      ∧ Token.Repeats ((Node.sectionsHoldAll options source nodes
          && Arrange.sectionsHold options source fallback kind nodes) = true) out
        (Group.sources groups) ∧ Plain out ∧ (nodes = [] → out = [])
      ∧ ∀ new, Replaces rest new →
        ∀ lineStart, Run lineStart (Group.sources groups ++ rest) [] →
        ((Node.seamsHoldAll options source nodes
          && Arrange.seamsHold options source fallback kind
            (Node.reorganizeAll options source nodes).1 (joined new)) = true
          ↔ Stands lineStart (out ++ new) []) := by
  by_cases stays : (Node.reorganizeAll options source nodes).1.length < 2
      ∨ isReorderable (entries (Node.reorganizeAll options source nodes).1).2 = false
  · rw [list_fst, if_pos stays]
    refine ⟨moved groups, row.printAll_moved, row.repeats_moved.imp ?_,
      row.plain_moved, ?_, ?_⟩
    · rw [Bool.and_eq_true]
      exact And.left
    · rintro rfl
      cases row
      rfl
    intro new replaces lineStart run
    have holds : Arrange.seamsHold options source fallback kind
        (Node.reorganizeAll options source nodes).1 (joined new) = true := by
      rcases stays with short | fixed
      · simp [Arrange.seamsHold, short]
      · simp [Arrange.seamsHold, fixed]
    rw [holds, Bool.and_true, row.seamsHoldAll_iff]
    exact ⟨fun alone => row.follows listed replaces alone lineStart run,
      row.alone_of_stands⟩
  · simp only [not_or, Nat.not_lt, Bool.not_eq_false] at stays
    cases row with
    | nil => simp [Node.reorganizeAll] at stays
    | @cons node nodes group groups spells ending here row =>
        have whole := Row.cons spells ending here row
        have more : nodes ≠ [] := by
          rintro rfl
          simp [Node.reorganizeAll] at stays
        obtain ⟨out, printed, repeats, plain, decided⟩ :=
          whole.arranged_sorted listed more fallback kind stays.2
        refine ⟨out, printed, (repeats.trans whole.repeats_moved).imp ?_, plain,
          by simp, ?_⟩
        · rw [Bool.and_eq_true]
          exact fun both => ⟨both, both.1⟩
        intro new replaces lineStart run
        rw [Bool.and_eq_true, whole.seamsHoldAll_iff,
          decided new replaces lineStart run]

end Row

end Arrange

end Lineup
