import Lineup.Order
import Lineup.Syntax.Parser
import Lineup.Trivia

/-!
# Putting a file in order

Every list of directives and of members, at any depth, is sorted. Comments travel with
the item they precede, and blank lines are kept tidy. A list with preprocessor lines
between its items is left as it is, since its items cannot move across them.
-/

namespace Lineup

/-- What was done to a tree. -/
structure Report where
  movedDirectives : Nat := 0
  movedMembers : Nat := 0
  /-- Lists left alone because of preprocessor lines between their items. -/
  skipped : Nat := 0
  /-- Lists already in order whose blank lines were tidied. -/
  cleaned : Nat := 0
  deriving DecidableEq, Repr

namespace Report

/-- Whether anything was changed. -/
def isChanged (report : Report) : Bool :=
  0 < report.movedDirectives || 0 < report.movedMembers || 0 < report.cleaned

/-- What was done in two parts of a tree. -/
def add (left right : Report) : Report :=
  { movedDirectives := left.movedDirectives + right.movedDirectives
    movedMembers := left.movedMembers + right.movedMembers
    skipped := left.skipped + right.skipped
    cleaned := left.cleaned + right.cleaned }

end Report

namespace Arrange

/-- An item of a list that is being sorted. -/
structure Entry where
  node : Node
  /-- The place of the item before sorting. -/
  position : Nat
  /-- The lines of trivia that travel with the item. -/
  lines : List TriviaLine

/-- The entries of items from a position on. -/
def entriesFrom (position : Nat) : List Node → List Entry
  | [] => []
  | node :: rest =>
      { node, position, lines := TriviaLine.split node.leading }
        :: entriesFrom (position + 1) rest

/-- The lines that stay in front of the list, and the entries of its items. -/
def entries : List Node → List TriviaLine × List Entry
  | [] => ([], [])
  | first :: rest =>
      let (header, lines) := TriviaLine.splitHeader (TriviaLine.split first.leading)
      (header, { node := first, position := 0, lines } :: entriesFrom 1 rest)

/-- Whether no item stands behind a preprocessor line of its own. -/
def isReorderable (entries : List Entry) : Bool :=
  entries.all fun entry => entry.lines.all fun line => !line.hasDirective

/-- The number of entries that are not at their place before sorting, from a place
on. -/
def countMoved (place : Nat) : List Entry → Nat
  | [] => 0
  | entry :: rest =>
      (if entry.position = place then 0 else 1) + countMoved (place + 1) rest

/-- When the last item of a list has no line end after it and another item becomes the
last, the line end moves from the new last item to the old one, so that no two items end
up on one line. -/
def moveFinalLineEnd (sorted : List Entry) : List Entry :=
  let oldLast := sorted.length - 1
  match sorted.find? (fun entry => entry.position == oldLast), sorted.getLast? with
  | some old, some new =>
      let lineEnd := new.node.trailing.lineEnd
      if new.position == oldLast || !old.node.trailing.lineEnd.isEmpty
        || lineEnd.isEmpty then sorted
      else
        sorted.map fun entry =>
          if entry.position == oldLast then
            { entry with
              node := entry.node.withTrailing (entry.node.trailing ++ lineEnd) }
          else if entry.position == new.position then
            { entry with
              node := entry.node.withTrailing (entry.node.trailing.dropEnding lineEnd) }
          else entry
  | _, _ => sorted

/-- The leading trivia of the first item of a sorted list. -/
def firstLeading (header : List TriviaLine) (entry : Entry) : Text :=
  TriviaLine.joined header
    ++ TriviaLine.joined (TriviaLine.dropBlank (TriviaLine.collapse entry.lines))

/-- The leading trivia of an item at a place other than the first. An item that was
moved is set off by a blank line if the list asks for it. -/
def laterLeading (separateMoved : Bool) (previous : Text) (place : Nat)
    (entry : Entry) : Text :=
  let lines := TriviaLine.collapse entry.lines
  if separateMoved && entry.position != place && !lines.any TriviaLine.isBlank then
    previous.lineEnd ++ TriviaLine.joined lines
  else TriviaLine.joined lines

/-- The items from a place on, with their new leading trivia. -/
def padFrom (separateMoved : Bool) (previous : Text) (place : Nat) :
    List Entry → List Node
  | [] => []
  | entry :: rest =>
      entry.node.withLeading (laterLeading separateMoved previous place entry)
        :: padFrom separateMoved entry.node.trailing (place + 1) rest

/-- The items of a sorted list, with their new leading trivia. -/
def pad (separateMoved : Bool) (header : List TriviaLine) : List Entry → List Node
  | [] => []
  | entry :: rest =>
      entry.node.withLeading (firstLeading header entry)
        :: padFrom separateMoved entry.node.trailing 1 rest

/-- The items of a list in their new order, the number of items that moved, and whether
the trivia of an unmoved list changed. -/
def arrange (separateMoved : Bool) (header : List TriviaLine) (sorted : List Entry) :
    List Node × Nat × Bool :=
  let moved := countMoved 0 sorted
  let settled := if moved = 0 then sorted else moveFinalLineEnd sorted
  let items := pad separateMoved header settled
  let changed := items.map Node.leading != sorted.map fun entry => entry.node.leading
  (items, moved, moved == 0 && changed)

/-- The entries in the order of a comparison of what their nodes declare. -/
def sortEntries {κ : Type} (key : Node → κ) (cmp : κ → κ → Ordering)
    (entries : List Entry) :
    List Entry :=
  let keyed := entries.map fun entry => (key entry.node, entry)
  (sortBy (fun left right => cmp left.1 right.1 != .gt) keyed).map Prod.snd

/-- A list in its new order. -/
def list (options : Options) (source : Text) (fallback : AccessLevel) (kind : ListKind)
    (items : List Node) : List Node × Report :=
  if items.length < 2 then (items, {})
  else
    let (header, entries) := entries items
    if !isReorderable entries then (items, { skipped := 1 })
    else
      match kind with
      | .directives =>
          let sorted := sortEntries (Directive.classify source)
            options.directives.compare entries
          let (items, moved, changed) := arrange false header sorted
          (items, { movedDirectives := moved, cleaned := if changed then 1 else 0 })
      | .members =>
          let sorted := sortEntries (Member.classify fallback)
            options.members.compare entries
          let (items, moved, changed) := arrange true header sorted
          (items, { movedMembers := moved, cleaned := if changed then 1 else 0 })

end Arrange

mutual

/-- Sort every list of a node, at any depth. -/
def Node.reorganize (options : Options) (source : Text) : Node → Node × Report
  | .mk info segments =>
      let result := Segment.reorganizeAll options source (AccessLevel.default info.kind)
        segments
      (.mk info result.1, result.2)

/-- Sort every list of a segment, at any depth. Members without an access modifier have
the access level `fallback`. -/
def Segment.reorganize (options : Options) (source : Text) (fallback : AccessLevel) :
    Segment → Segment × Report
  | .text content => (.text content, {})
  | .node child =>
      let result := child.reorganize options source
      (.node result.1, result.2)
  | .list kind items =>
      let inner := Node.reorganizeAll options source items
      let outer := Arrange.list options source fallback kind inner.1
      (.list kind outer.1, inner.2.add outer.2)

/-- Sort every list of consecutive segments, at any depth. -/
def Segment.reorganizeAll (options : Options) (source : Text) (fallback : AccessLevel) :
    List Segment → List Segment × Report
  | [] => ([], {})
  | segment :: segments =>
      let first := segment.reorganize options source fallback
      let others := Segment.reorganizeAll options source fallback segments
      (first.1 :: others.1, first.2.add others.2)

/-- Sort every list of consecutive nodes, at any depth. -/
def Node.reorganizeAll (options : Options) (source : Text) :
    List Node → List Node × Report
  | [] => ([], {})
  | node :: nodes =>
      let first := node.reorganize options source
      let others := Node.reorganizeAll options source nodes
      (first.1 :: others.1, first.2.add others.2)

end

/-- Put a tree in order. A tree that stands for something other than a whole file is
refused. -/
def Tree.reorganize? (options : Options) (tree : Tree) : Option (Tree × Report) :=
  match tree.node? tree.root with
  | some root =>
      if root.kind = .compilationUnit then
        let result := tree.top.reorganize options tree.source
        some ({ tree with top := result.1 }, result.2)
      else none
  | none => none

/-- Put a parsed file in order. -/
def Tree.reorganize (options : Options) (tree : Tree) : Tree × Report :=
  let result := tree.top.reorganize options tree.source
  ({ tree with top := result.1 }, result.2)

/-- Put a source text in order. -/
def reorganizeText (options : Options) (source : Text) : Text × Report :=
  let result := (Tree.parse source).reorganize options
  (result.1.print, result.2)

end Lineup
