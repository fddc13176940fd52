import Lineup.Proofs.Rest
import Lineup.Proofs.Syntax.Follow

/-!
# Items in lines of their own

An item that starts a line and ends with one can be put anywhere between lines. Tidying
the trivia in front of it keeps the line on which the item starts: only whole lines are
taken away or put in. So the tokens of such items can be read one after the other in any
order.
-/

namespace Lineup

namespace TriviaLine

open Token (Run run_append)

/-- The lines without a line end: the last one, if any. -/
def unfinished (lines : List TriviaLine) : List TriviaLine :=
  lines.filter fun line => !line.isComplete

theorem unfinished_append (lines others : List TriviaLine) :
    unfinished (lines ++ others) = unfinished lines ++ unfinished others :=
  List.filter_append ..

theorem unfinished_eq_nil {lines : List TriviaLine}
    (complete : ∀ line ∈ lines, line.isComplete = true) :
    unfinished lines = [] := by
  rw [unfinished, List.filter_eq_nil_iff]
  intro line member
  simp [complete line member]

theorem unfinished_contents (lines : List TriviaLine) :
    unfinished (contents lines) = unfinished lines := by
  rw [unfinished, contents, List.filter_filter]
  apply List.filter_congr
  intro line _
  cases complete : line.isComplete with
  | true => rfl
  | false => simp [isBlank, complete]

/-- Whether tokens are read behind lines depends on the unfinished line only. -/
theorem Lines.run_append_iff {lines : List TriviaLine} {tokens : List Token}
    (made : Lines lines tokens) {first : Token} (other : first.kind ≠ .newline)
    (rest : List Token) (behind : Text) :
    Run true (tokens ++ first :: rest) behind
      ↔ Run true (TriviaLine.tokens (unfinished lines) ++ first :: rest) behind := by
  induction made with
  | nil => rfl
  | @last tokens _ _ run =>
      have same : (TriviaLine.tokens (unfinished [ofTokens tokens])
          ++ first :: rest).map Token.face
          = (tokens ++ first :: rest).map Token.face := by
        rw [List.map_append, List.map_append, ← run.map_face_lex]
        simp [unfinished, TriviaLine.tokens, ofTokens]
      exact ⟨fun run => run.congr same.symm, fun run => run.congr same⟩
  | @cons line others newline lines _ is run made ih =>
      have later : unfinished ((ofTokens line).complete newline.text :: lines)
          = unfinished lines := rfl
      have whole : line ++ newline :: others ++ first :: rest
          = line ++ [newline] ++ (others ++ first :: rest) := by simp
      rw [later, ← ih, whole, run_append, Token.lineStartAfter_newline true line is]
      refine and_iff_right_of_imp fun rests => run.restart is fun ends => ?_
      -- What follows does not start with a line feed that belongs to the line end.
      have read := (run_append.mp run).2.1
      rw [Token.joined_nil, List.nil_append] at read
      cases others with
      | nil =>
          intro feeds
          rw [List.nil_append, Token.joined_cons, List.append_assoc,
            List.head?_append_of_ne_nil _ rests.1.text_ne_nil] at feeds
          exact other (rests.1.kind_of_lineFeed feeds)
      | cons next others =>
          rw [Token.joined_append, List.append_assoc]
          have present := made.run.1.text_ne_nil
          rcases read.newline is with text | text | ⟨-, apart⟩
          · rw [text] at ends
            cases ends
          · rw [text] at ends
            cases ends
          · rw [Token.joined_cons, List.head?_append_of_ne_nil _ present] at apart
            rwa [Token.joined_cons, List.append_assoc,
              List.head?_append_of_ne_nil _ present]

theorem trivia_of_lines {leading : Text} {leadings : List Text}
    (lines : ∀ line ∈ split leading, line.isBlank = true
      ∨ ∃ other ∈ leadings, line ∈ split other)
    (trivia : ∀ other ∈ leadings, ∀ token ∈ Token.lex other, token.isTrivia = true) :
    ∀ token ∈ Token.lex leading, token.isTrivia = true := by
  intro token member
  have found : token.face ∈ (tokens (split leading)).map Token.face := by
    rw [(lines_split leading).map_face_tokens]
    exact List.mem_map_of_mem member
  obtain ⟨same, within, face⟩ := List.mem_map.mp found
  obtain ⟨line, present, within⟩ := List.mem_flatMap.mp within
  have kind : same.kind = token.kind := congrArg Prod.fst face
  rw [Token.isTrivia, ← kind]
  rcases lines line present with blank | ⟨other, listed, belongs⟩
  · -- A blank line has blanks and its line end only.
    have said := (lines_split leading).content_of_isBlank present blank
    rw [Token.content, List.filter_eq_nil_iff] at said
    have empty := said same.face (List.mem_map_of_mem within)
    by_contra solid
    exact empty
      (by simp [Token.face, Token.isBlank_of_significant (Bool.eq_false_iff.mpr solid)])
  · have faces := (lines_split other).map_face_tokens
    have moved : same.face ∈ (Token.lex other).map Token.face := by
      rw [← faces]
      exact List.mem_map_of_mem (List.mem_flatMap.mpr ⟨line, belongs, within⟩)
    obtain ⟨original, listedToken, face⟩ := List.mem_map.mp moved
    have kind : original.kind = same.kind := congrArg Prod.fst face
    rw [← kind]
    exact trivia other listed original listedToken

end TriviaLine

namespace Arrange

open TriviaLine (unfinished contents)

theorem movedLineEnd_eq_nil {sorted : List Entry}
    (ends : ∀ entry ∈ sorted, entry.node.trailing.lineEnd ≠ []) :
    movedLineEnd sorted = [] := by
  rw [movedLineEnd]
  split
  · rename_i old new found last
    have present := ends old (List.mem_of_find?_eq_some found)
    rw [if_pos (by simpa using .inr present)]
  · rfl

theorem Settled.eq_of_still {last place : Nat} {entry settled : Entry}
    (changed : Settled [] last place entry settled) : settled = entry := by
  obtain ⟨position, lines, trailing, node, same⟩ := changed
  simp only [ite_self, List.append_nil] at same
  cases entry with
  | mk own _ _ =>
      cases settled with
      | mk other _ _ =>
          cases own with
          | mk info segments =>
              simp only [Node.trailing, Node.info, Node.withTrailing] at node same
              simp_all

theorem entriesFrom_split (position : Nat) (items : List Node) :
    ∀ entry ∈ entriesFrom position items,
      entry.node ∈ items ∧ entry.lines = TriviaLine.split entry.node.leading := by
  induction items generalizing position with
  | nil => simp [entriesFrom]
  | cons item items ih =>
      intro entry member
      rcases List.mem_cons.mp member with rfl | later
      · exact ⟨List.mem_cons_self, rfl⟩
      · obtain ⟨listed, lines⟩ := ih (position + 1) entry later
        exact ⟨List.mem_cons_of_mem _ listed, lines⟩

/-- The lines of an entry are those of its item, less complete lines in front that
belong to the list. -/
theorem entries_split (items : List Node) :
    ∀ entry ∈ (entries items).2, entry.node ∈ items
    ∧ ∃ header, header ++ entry.lines = TriviaLine.split entry.node.leading
      ∧ ∀ line ∈ header, line.isComplete = true := by
  cases items with
  | nil => simp [entries]
  | cons item items =>
      intro entry member
      rcases List.mem_cons.mp member with rfl | later
      · exact ⟨List.mem_cons_self, _, TriviaLine.splitHeader_append _,
          (TriviaLine.lines_split item.leading).splitHeader_complete⟩
      · obtain ⟨listed, lines⟩ := entriesFrom_split 1 items entry later
        exact ⟨List.mem_cons_of_mem _ listed, [], lines, by simp⟩

/-- The trivia in front of an item after it was tidied: the item starts on the same
line, and all lines are blank or lines from in front of some item. -/
structure Tidies (items : List Node) (item : Node) (leading : Text) : Prop where
  last : unfinished (TriviaLine.split leading)
    = unfinished (TriviaLine.split item.leading)
  lines : ∀ line ∈ TriviaLine.split leading,
    line.isBlank = true
      ∨ ∃ other ∈ items.map Node.leading, line ∈ TriviaLine.split other

theorem Tidies.trivia {items : List Node} {item : Node} {leading : Text}
    (tidies : Tidies items item leading)
    (trivia : ∀ other ∈ items, ∀ token ∈ Token.lex other.leading,
      token.isTrivia = true) :
    ∀ token ∈ Token.lex leading, token.isTrivia = true :=
  TriviaLine.trivia_of_lines tidies.lines (List.forall_mem_map.mpr trivia)

theorem Leads.tidies {separateMoved : Bool} {items : List Node} {entry : Entry}
    {place : Nat} {leading : Text}
    (leads : Leads separateMoved (entries items).1 entry place leading)
    (listed : entry ∈ (entries items).2) : Tidies items entry.node leading := by
  obtain ⟨tokens, made⟩ := entries_lines items entry listed
  obtain ⟨own, parted, same, -, -⟩ := leads.split made
  obtain ⟨member, header, whole, complete⟩ := entries_split items entry listed
  have front : ∀ line ∈ (if place = 0 then (entries items).1 else []),
      line ∈ (entries items).1 := by
    split <;> simp
  have finished := (header_lines items).2
  constructor
  · rw [parted, ← whole, TriviaLine.unfinished_append, TriviaLine.unfinished_append,
      TriviaLine.unfinished_eq_nil complete,
      TriviaLine.unfinished_eq_nil fun line within => finished line (front line within),
      ← TriviaLine.unfinished_contents own, same, TriviaLine.unfinished_contents]
  · intro line within
    rw [parted] at within
    rcases List.mem_append.mp within with header | kept
    · right
      cases items with
      | nil => exact absurd (front line header) (by simp [entries])
      | cons item items =>
          refine ⟨item.leading, by simp, ?_⟩
          rw [← TriviaLine.splitHeader_append (TriviaLine.split item.leading)]
          exact List.mem_append_left _ (front line header)
    · cases blank : line.isBlank with
      | true => exact .inl rfl
      | false =>
          have found : line ∈ contents own :=
            List.mem_filter.mpr ⟨kept, by simp [blank]⟩
          rw [same] at found
          refine .inr ⟨entry.node.leading, List.mem_map_of_mem member, ?_⟩
          rw [← whole]
          exact List.mem_append_right _ (List.mem_filter.mp found).1

/-- The items of a list with a line end behind each of them get other leading trivia at
most. -/
theorem list_tidies (options : Options) (source : Text) (fallback : AccessLevel)
    (kind : ListKind) {items : List Node}
    (ends : ∀ item ∈ items, item.trailing.lineEnd ≠ []) :
    ∀ moved ∈ (list options source fallback kind items).1,
      ∃ item ∈ items, ∃ leading, moved = item.withLeading leading
        ∧ Tidies items item leading := by
  intro moved member
  by_cases stays : items.length < 2 ∨ isReorderable (entries items).2 = false
  · rw [list_fst, if_pos stays] at member
    have tidies : Tidies items moved moved.leading :=
      ⟨rfl, fun line within => .inr ⟨_, List.mem_map_of_mem member, within⟩⟩
    exact ⟨moved, member, moved.leading,
      ((Node.withLeading_eq_self moved _).mpr rfl).symm, tidies⟩
  · obtain ⟨place, found⟩ := List.mem_iff_getElem?.mp member
    obtain ⟨entry, settled, leading, listed, rfl, changed, leads, -⟩ :=
      list_placed options source fallback kind stays found
    have perm := order_perm options source fallback kind (entries items).2
    rw [movedLineEnd_eq_nil fun entry present =>
      ends entry.node (entries_split items entry
        (perm.mem_iff.mp present)).1] at changed
    obtain rfl : settled = entry := changed.eq_of_still
    exact ⟨settled.node, (entries_split items settled listed).1, leading, rfl,
      leads.tidies listed⟩

end Arrange

namespace Parser

open Token (Run LineFed run_append)
open Lineup.Span (Clear)

/-- The tokens of nodes that start a line and end with one: they are read in front of
everything that does not continue them. -/
structure Portable (scope : Scope) (nodes : List Node) (tokens : List Token) :
    Prop where
  reads : ∀ others, Clear others → Parsed scope nodes tokens others
  clear : ∀ others, Clear (tokens ++ others)
  fed : LineFed tokens
  run : Run true tokens []

namespace Portable

variable {scope : Scope}

theorem append {nodes others : List Node} {tokens more : List Token}
    (first : Portable scope nodes tokens) (second : Portable scope others more) :
    Portable scope (nodes ++ others) (tokens ++ more) where
  reads after clear :=
    (first.reads _ (second.clear after)).append (second.reads after clear)
  clear after := by
    rw [List.append_assoc]
    exact first.clear _
  fed := second.fed.append tokens
  run := by
    refine run_append.mpr ⟨first.fed.run first.run _, ?_⟩
    rw [first.fed.lineStartAfter_eq]
    exact second.run

/-- Nodes that are portable one by one are portable together. -/
theorem exists_all {nodes : List Node}
    (each : ∀ node ∈ nodes, ∃ tokens, Portable scope [node] tokens)
    (present : nodes ≠ []) : ∃ tokens, Portable scope nodes tokens := by
  induction nodes with
  | nil => exact absurd rfl present
  | cons node nodes ih =>
      obtain ⟨first, others⟩ := List.forall_mem_cons.mp each
      by_cases empty : nodes = []
      · rw [empty]
        exact first
      · obtain ⟨own, portable⟩ := first
        obtain ⟨more, later⟩ := ih others empty
        exact ⟨own ++ more, portable.append later⟩

end Portable

end Parser

end Lineup
