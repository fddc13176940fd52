import Lineup.Proofs.Seams.Row

/-!
# The tokens of a body

The segments of a body, laid one after the other: nodes, and lists of nodes, of which no
two follow each other. The tokens of the rearranged segments stand in front of whatever
replaces the tokens behind the body exactly when the seams of the segments hold.
-/

namespace Lineup

namespace Arrange

open Token (Run Stands Free Plain Replaces Follows joined content)

/-- Whether a list stands at the front. -/
def startsWithList : List Segment → Bool
  | .list _ _ :: _ => true
  | _ => false

theorem head?_of_startsWithList {nodes : List Node}
    (list : startsWithList (Parser.gather nodes) = true) :
    nodes ≠ [] ∧ ∀ next ∈ nodes.head?, next.kind = .usingDirective := by
  cases nodes with
  | nil => cases list
  | cons node nodes =>
      refine ⟨List.cons_ne_nil _ _, fun next member => ?_⟩
      rw [← Option.some.inj member]
      by_contra other
      rw [Parser.gather, if_neg other] at list
      cases list

/-- The tokens `old` of consecutive segments become the tokens `out` when their lists
are rearranged, in front of the tokens `rest`. -/
structure Lays (options : Options) (source : Text) (fallback : AccessLevel)
    (rest : List Token) (segments : List Segment) (old out : List Token) : Prop where
  printed : Segment.printAll (Segment.reorganizeAll options source fallback segments).1
    = joined out
  repeats : Token.Repeats
    (Segment.sectionsHoldAll options source fallback segments = true) out old
  plain : Plain out
  empty : old = [] → out = []
  seams : ∀ new, Replaces rest new →
    (Segment.seamsHoldAll options source fallback (joined new) segments = true
      ↔ Stands true (out ++ new) [])
  follows : ∀ new, Replaces rest new → Stands true (out ++ new) [] →
    Follows (old ++ rest) (out ++ new)
  replaces : startsWithList segments = false → ∀ new, Replaces rest new →
    Stands true (out ++ new) [] → Replaces (old ++ rest) (out ++ new)

namespace Lays

variable {options : Options} {source : Text} {fallback : AccessLevel}
  {rest : List Token} {segments : List Segment} {old out : List Token}

theorem nil (run : ∃ lineStart, Run lineStart rest []) :
    Lays options source fallback rest [] [] [] where
  printed := by simp [Segment.reorganizeAll]
  repeats := .refl _ _
  plain _ member := nomatch member
  empty _ := rfl
  seams new replaces := by
    obtain ⟨lineStart, run⟩ := run
    have stands := (replaces.follows lineStart run).starting replaces.plain
    simpa [Segment.seamsHoldAll] using stands
  follows _ replaces _ := replaces.follows
  replaces _ _ replaces _ := replaces

/-- The later tokens stand on their own when they stand behind others. -/
theorem later (lays : Lays options source fallback rest segments old out)
    {new : List Token} (replaces : Replaces rest new) {front : List Token}
    {lineStart : Bool} (stands : Stands lineStart (front ++ (out ++ new)) []) :
    Stands true (out ++ new) [] :=
  (Token.stands_append.mp stands).2.starting (lays.plain.append replaces.plain)

/-- What stands behind a node of a body joins it. -/
theorem joins (lays : Lays options source fallback rest segments old out) {node : Node}
    {group : Group} (spells : Spells options source (old ++ rest) node group)
    (closed : startsWithList segments = true → group.Closed
      ∧ ∃ token ∈ old ++ rest, token.isTrivia = false)
    {new : List Token} (replaces : Replaces rest new)
    (stands : Stands true (out ++ new) []) :
    group.Joins (old ++ rest) (group.trail ++ (out ++ new)) := by
  cases list : startsWithList segments with
  | false =>
      exact .replaces ((lays.replaces list new replaces stands).prepend
        spells.plainTrail)
  | true =>
      obtain ⟨closed, more⟩ := closed list
      exact spells.joins closed (lays.plain.append replaces.plain)
        (lays.follows new replaces stands) more

theorem node (lays : Lays options source fallback rest segments old out) {node : Node}
    {group : Group} (spells : Spells options source (old ++ rest) node group)
    (closed : startsWithList segments = true →
      group.Closed ∧ ∃ token ∈ old ++ rest, token.isTrivia = false) :
    Lays options source fallback rest (.node node :: segments) (group.source ++ old)
      (group.moved ++ out) := by
  have whole (new : List Token) : group.moved ++ out ++ new
      = group.lead ++ (group.inner ++ (group.trail ++ (out ++ new))) := by
        simp [Group.moved]
  have own {new : List Token} (replaces : Replaces rest new)
      (stands : Stands true (group.moved ++ out ++ new) []) :
      Stands true (out ++ new) []
        ∧ Stands true (group.inner ++ (group.trail ++ (out ++ new))) [] := by
    have later := lays.later replaces (by simpa using stands)
    rw [whole] at stands
    exact ⟨later, (Token.stands_append.mp stands).2.starting
      (spells.kept.append (lays.joins spells closed replaces later).plain)⟩
  have replacing (new : List Token) (replaces : Replaces rest new)
      (later : Stands true (out ++ new) [])
      (stands : Stands true (group.inner ++ (group.trail ++ (out ++ new))) []) :
      Replaces (group.source ++ old ++ rest) (group.moved ++ out ++ new) := by
    rw [whole, List.append_assoc]
    exact spells.replacesAll (lays.joins spells closed replaces later) stands
  refine { printed := ?_, repeats := ?_, plain := spells.plainMoved.append lays.plain,
           empty := ?_, seams := fun new replaces => ?_, follows := ?_, replaces := ?_ }
  · rw [Segment.reorganizeAll, Segment.printAll_cons, lays.printed, Segment.reorganize,
      Segment.print_node, spells.print_moved, Token.joined_append]
  · apply (spells.repeats_moved.append lays.repeats).imp
    rw [Segment.sectionsHoldAll, Segment.sectionsHold, Bool.and_eq_true]
    exact id
  · obtain ⟨first, core, -, spelled, -⟩ := spells.starts
    simp [Group.source, spelled]
  · rw [Segment.seamsHoldAll, Segment.seamsHold, Bool.and_eq_true, lays.printed,
      spells.trailing, ← Token.joined_append, ← Token.joined_append,
      lays.seams new replaces]
    constructor
    · rintro ⟨holds, later⟩
      have stands := (spells.seams _ (lays.joins spells closed replaces later)).mp holds
      obtain ⟨lineStart, run⟩ := spells.run
      rw [← List.append_assoc] at run
      refine (replacing new replaces later stands).follows true (run.starting ?_)
      simpa using spells.plain
    · intro stands
      obtain ⟨later, inner⟩ := own replaces stands
      exact ⟨(spells.seams _ (lays.joins spells closed replaces later)).mpr inner,
        later⟩
  · intro new replaces stands
    obtain ⟨later, inner⟩ := own replaces stands
    exact (replacing new replaces later inner).follows
  · intro _ new replaces stands
    obtain ⟨later, inner⟩ := own replaces stands
    exact replacing new replaces later inner

/-- A list in front of segments that do not start with a list. -/
theorem list (lays : Lays options source fallback rest segments old out)
    (next : startsWithList segments = false) {scope : Parser.Scope} {nodes : List Node}
    {groups : List Group} (row : Row options source scope (old ++ rest) nodes groups)
    (listed : Row.Listed scope nodes)
    (plain : Plain (Group.sources groups ++ (old ++ rest)))
    (run : ∃ lineStart, Run lineStart (Group.sources groups ++ (old ++ rest)) [])
    (kind : ListKind) :
    ∃ items, Lays options source fallback rest (.list kind nodes :: segments)
      (Group.sources groups ++ old) (items ++ out) := by
  obtain ⟨items, printed, repeats, plainItems, empty, decided⟩ :=
    row.arranged listed fallback kind
  obtain ⟨lineStart, run⟩ := run
  have run := run.starting plain
  have decides {new : List Token} (replaces : Replaces rest new)
      (later : Stands true (out ++ new) []) :=
    decided (out ++ new) (lays.replaces next new replaces later)
  have seams (new : List Token) (replaces : Replaces rest new) :
      Segment.seamsHoldAll options source fallback (joined new)
        (.list kind nodes :: segments) = true
        ↔ Stands true (items ++ out ++ new) [] := by
    rw [Segment.seamsHoldAll, Segment.seamsHold, Bool.and_eq_true (_ && _),
      lays.printed, ← Token.joined_append, lays.seams new replaces, List.append_assoc]
    constructor
    · rintro ⟨holds, later⟩
      exact (decides replaces later true run).mp holds
    · intro stands
      have later := lays.later replaces stands
      exact ⟨(decides replaces later true run).mpr stands, later⟩
  refine ⟨items, { printed := ?_, repeats := ?_, plain := plainItems.append lays.plain,
                   empty := ?_, seams, follows :=
                     fun new replaces stands lineStart run => ?_,
                   replaces := fun absent => nomatch absent }⟩
  · rw [Segment.reorganizeAll, Segment.printAll_cons, lays.printed, Segment.reorganize,
      Segment.print_list, printed, Token.joined_append]
  · apply (repeats.append lays.repeats).imp
    rw [Segment.sectionsHoldAll, Segment.sectionsHold, Bool.and_eq_true (_ && _)]
    exact id
  · intro absent
    obtain ⟨noItems, noOthers⟩ := List.append_eq_nil_iff.mp absent
    rw [lays.empty noOthers, List.append_nil]
    refine empty ?_
    cases row with
    | nil => rfl
    | cons spells =>
        obtain ⟨first, core, -, spelled, -⟩ := spells.starts
        simp [Group.source, spelled] at noItems
  · rw [List.append_assoc] at stands run ⊢
    have later := lays.later replaces stands
    refine (decides replaces later lineStart run).mp ?_
    exact (decides replaces later true ‹_›).mpr stands

end Lays

namespace Row

variable {options : Options} {source : Text} {scope : Parser.Scope} {rest : List Token}
  {nodes : List Node} {groups : List Group}

/-- The segments of a file or a namespace: the using directives at the front share a
list, and the other segments are laid. -/
inductive Fronted (options : Options) (source : Text) (scope : Parser.Scope)
    (fallback : AccessLevel) (rest : List Token) : List Segment → List Group →
      Prop where
  | intro {items : List Node} {segments : List Segment} {itemGroups groups : List Group}
      {out : List Token} (next : startsWithList segments = false)
      (directives : ∀ item ∈ items, item.kind = .usingDirective)
      (row : Row options source scope (Group.sources groups ++ rest) items itemGroups)
      (lays : Lays options source fallback rest segments (Group.sources groups) out) :
      Fronted options source scope fallback rest
        ((if items = [] then [] else [.list .directives items]) ++ segments)
          (itemGroups ++ groups)

theorem Fronted.lays {fallback : AccessLevel} {segments : List Segment}
    (fronted : Fronted options source scope fallback rest segments groups)
    (plain : Plain (Group.sources groups ++ rest))
    (run : ∃ lineStart, Run lineStart (Group.sources groups ++ rest) []) :
    ∃ out, Lays options source fallback rest segments (Group.sources groups) out := by
  cases fronted with
  | @intro items segments itemGroups groups out next directives row lays =>
      rw [Group.sources_append, List.append_assoc] at plain run
      rw [Group.sources_append]
      split
      · rename_i empty
        subst empty
        cases row
        exact ⟨out, lays⟩
      · obtain ⟨list, lays⟩ := lays.list next row
          (fun item member => .inr (directives item member)) plain run .directives
        exact ⟨_, lays⟩

/-- A using directive joins the list at the front. -/
theorem Fronted.directive {fallback : AccessLevel} {segments : List Segment}
    {node : Node} {group : Group}
    (fronted : Fronted options source scope fallback rest segments groups)
    (is : node.kind = .usingDirective)
    (spells : Spells options source (Group.sources groups ++ rest) node group)
    (ending : Ending node.kind (Group.sources groups ++ rest) group)
    (listed : scope = .members ∨ node.kind = .usingDirective →
      node.kind ≠ .namespaceDeclaration
        ∧ ∀ first ∈ group.core.head?, first.is closeBrace = false) :
    Fronted options source scope fallback rest (Parser.consDirective node segments)
      (group :: groups) := by
  cases fronted with
  | @intro items segments itemGroups groups out next directives row lays =>
      rw [Group.sources_append, List.append_assoc] at spells ending
      have more := Row.cons spells ending listed row
      have all : ∀ item ∈ node :: items, item.kind = .usingDirective :=
        List.forall_mem_cons.mpr ⟨is, directives⟩
      have fronted := Fronted.intro next all more lays
      have gathered : Parser.consDirective node
            ((if items = [] then [] else [.list .directives items]) ++ segments)
          = .list .directives (node :: items) :: segments := by
        split
        · rename_i empty
          subst empty
          cases segments with
          | nil => rfl
          | cons segment segments =>
              cases segment with
              | list => cases next
              | text => rfl
              | node => rfl
        · rfl
      rw [gathered]
      simpa using fronted

theorem fronted (row : Row options source scope rest nodes groups)
    (plain : Plain (Group.sources groups ++ rest))
    (run : ∃ lineStart, Run lineStart (Group.sources groups ++ rest) [])
    (fallback : AccessLevel) :
    Fronted options source scope fallback rest (Parser.gather nodes) groups := by
  induction row with
  | nil =>
      have empty : Lays options source fallback rest [] (Group.sources []) [] :=
        .nil run
      exact .intro rfl (by simp) .nil empty
  | @cons node nodes group groups spells ending listed row ih =>
      have whole := Row.cons spells ending listed row
      rw [Group.sources_cons, List.append_assoc] at plain run
      obtain ⟨lineStart, run⟩ := run
      have run := (Token.run_append.mp run).2
      have fronted := ih plain.right ⟨_, run⟩
      rw [Parser.gather]
      split
      · rename_i is
        exact fronted.directive is spells ending listed
      · obtain ⟨out, lays⟩ := fronted.lays plain.right ⟨_, run⟩
        have node := lays.node spells fun list =>
          whole.closed (fun next member =>
            .inr ((head?_of_startsWithList list).2 next member))
            (head?_of_startsWithList list).1
        exact .intro rfl (by simp) .nil node

theorem lays (row : Row options source scope rest nodes groups)
    (plain : Plain (Group.sources groups ++ rest))
    (run : ∃ lineStart, Run lineStart (Group.sources groups ++ rest) [])
    (fallback : AccessLevel) :
    ∃ out, Lays options source fallback rest (scope.body nodes).segments
      (Group.sources groups) out := by
  cases scope with
  | items braced =>
      rw [Parser.Scope.body_items]
      exact (row.fronted plain run fallback).lays plain run
  | members =>
      rw [Parser.Scope.body_members]
      obtain ⟨lineStart, whole⟩ := run
      have empty : Lays options source fallback rest [] [] [] :=
        .nil ⟨_, (Token.run_append.mp whole).2⟩
      obtain ⟨items, lays⟩ :=
        empty.list rfl row (fun _ _ => .inl rfl) plain ⟨lineStart, whole⟩ .members
      rw [List.append_nil] at lays
      exact ⟨_, lays⟩

end Row

end Arrange

end Lineup
