import Lineup.Proofs.Arrange
import Lineup.Proofs.Nesting
import Lineup.Proofs.Token.Stands

/-!
# Sections of a source text

Preprocessor lines mark off conditional sections and regions. Lists with such lines
between their items are left alone, but an item can have preprocessor lines within. A
list keeps the sections of its text when its items stay in their order or when the
sections of every item are nested on their own.
-/

namespace Lineup

/-- What preprocessor lines mark off. -/
inductive Section where
  | conditional
  | region
  deriving DecidableEq, Repr

namespace Section

/-- The words that open, divide and close sections. -/
def words : List (String × Mark Section) :=
  [("if", .opens .conditional), ("elif", .divides .conditional),
    ("else", .divides .conditional), ("endif", .closes .conditional),
    ("region", .opens .region), ("endregion", .closes .region)]

/-- The word behind the hash sign of a preprocessor line. -/
def word (line : Text) : Text :=
  ((line.drop 1).dropWhile Byte.isInlineSpace).takeWhile Byte.isAlpha

/-- What a token of the given kind and text does to the sections. -/
def mark? : TokenKind × Text → Option (Mark Section)
  | (.directive, line) =>
      (words.find? fun entry => word line == utf8 entry.1).map Prod.snd
  | _ => none

end Section

namespace Token

/-- The marks of the sections among tokens. -/
def sections (tokens : List Token) : List (Mark Section) :=
  tokens.filterMap fun token => Section.mark? token.face

theorem sections_eq (tokens : List Token) :
    sections tokens = (content tokens).filterMap Section.mark? := by
  rw [content, List.filterMap_filter, List.filterMap_map, sections]
  apply List.filterMap_congr
  intro token _
  cases kind : token.kind <;> simp [face, kind, Section.mark?, TokenKind.isBlank]

theorem sections_congr {tokens others : List Token}
    (same : content tokens = content others) :
    sections tokens = sections others := by
  rw [sections_eq, sections_eq, same]

@[simp] theorem sections_append (tokens others : List Token) :
    sections (tokens ++ others) = sections tokens ++ sections others :=
  List.filterMap_append

theorem sections_eq_nil {tokens : List Token}
    (plain : ∀ token ∈ tokens, token.kind ≠ .directive) :
    sections tokens = [] := by
  apply List.filterMap_eq_nil_iff.mpr
  intro token member
  have other := plain token member
  cases kind : token.kind <;> simp_all [face, Section.mark?]

/-- The tokens `new` are the tokens `old` in another order, up to blanks, and where
`kept` holds they mark off the same sections. -/
structure Repeats (kept : Prop) (new old : List Token) : Prop where
  said : (content new).Perm (content old)
  sections : kept → Mark.Same (Token.sections new) (Token.sections old)

namespace Repeats

variable {kept other : Prop} {new old more more' : List Token}

theorem refl (kept : Prop) (tokens : List Token) : Repeats kept tokens tokens :=
  ⟨.refl _, fun _ => .refl _⟩

theorem append (first : Repeats kept new old) (second : Repeats other more more') :
    Repeats (kept ∧ other) (new ++ more) (old ++ more') where
  said := by
    rw [content_append, content_append]
    exact first.said.append second.said
  sections both := by
    rw [sections_append, sections_append]
    exact (first.sections both.1).append (second.sections both.2)

theorem append_left (repeats : Repeats kept new old) (front : List Token) :
    Repeats kept (front ++ new) (front ++ old) where
  said := by
    rw [content_append, content_append]
    exact repeats.said.append_left _
  sections holds := by
    rw [sections_append, sections_append]
    exact (Mark.Same.refl _).append (repeats.sections holds)

theorem append_right (repeats : Repeats kept new old) (back : List Token) :
    Repeats kept (new ++ back) (old ++ back) where
  said := by
    rw [content_append, content_append]
    exact repeats.said.append_right _
  sections holds := by
    rw [sections_append, sections_append]
    exact (repeats.sections holds).append (.refl _)

theorem trans (first : Repeats kept new old) (second : Repeats other old more) :
    Repeats (kept ∧ other) new more :=
  ⟨first.said.trans second.said, fun both =>
    (first.sections both.1).trans (second.sections both.2)⟩

theorem imp (repeats : Repeats kept new old) (holds : other → kept) :
    Repeats other new old :=
  ⟨repeats.said, fun is => repeats.sections (holds is)⟩

end Repeats

end Token

/-- Whether the sections within a node are nested on their own. -/
def Node.isNested (node : Node) : Bool :=
  decide (Mark.Nested (Token.sections (Token.lex (Segment.printAll node.segments))))

/-- Whether a list keeps the sections of its text: its items do not move, or the
sections within each of them are nested on their own. -/
def Arrange.sectionsHold (options : Options) (source : Text) (fallback : AccessLevel)
    (kind : ListKind) (items : List Node) : Bool :=
  let inner := (Node.reorganizeAll options source items).1
  inner.length < 2 || !isReorderable (entries inner).2
    || countMoved 0 (order options source fallback kind (entries inner).2) == 0
    || items.all Node.isNested

mutual

/-- Whether all lists of a node keep their sections. -/
def Node.sectionsHold (options : Options) (source : Text) : Node → Bool
  | .mk info segments =>
      Segment.sectionsHoldAll options source (AccessLevel.default info.kind) segments

/-- Whether all lists of a segment keep their sections. -/
def Segment.sectionsHold (options : Options) (source : Text) (fallback : AccessLevel) :
    Segment → Bool
  | .text _ => true
  | .node child => child.sectionsHold options source
  | .list kind items =>
      Node.sectionsHoldAll options source items
        && Arrange.sectionsHold options source fallback kind items

/-- Whether all lists of consecutive segments keep their sections. -/
def Segment.sectionsHoldAll (options : Options) (source : Text)
    (fallback : AccessLevel) :
    List Segment → Bool
  | [] => true
  | segment :: segments =>
      segment.sectionsHold options source fallback
        && Segment.sectionsHoldAll options source fallback segments

/-- Whether all lists inside of consecutive items keep their sections. -/
def Node.sectionsHoldAll (options : Options) (source : Text) : List Node → Bool
  | [] => true
  | node :: nodes =>
      node.sectionsHold options source && Node.sectionsHoldAll options source nodes

end

@[simp] theorem Segment.sectionsHoldAll_nil (options : Options) (source : Text)
    (fallback : AccessLevel) :
    Segment.sectionsHoldAll options source fallback [] = true := by
  simp [Segment.sectionsHoldAll]

@[simp] theorem Segment.sectionsHoldAll_text (options : Options) (source : Text)
    (fallback : AccessLevel) (content : Text) (segments : List Segment) :
    Segment.sectionsHoldAll options source fallback (.text content :: segments)
      = Segment.sectionsHoldAll options source fallback segments := by
  simp [Segment.sectionsHoldAll, Segment.sectionsHold]

theorem Segment.sectionsHoldAll_append (options : Options) (source : Text)
    (fallback : AccessLevel) (segments others : List Segment) :
    Segment.sectionsHoldAll options source fallback (segments ++ others)
      = (Segment.sectionsHoldAll options source fallback segments
        && Segment.sectionsHoldAll options source fallback others) := by
  induction segments with
  | nil => simp
  | cons segment segments ih => simp [Segment.sectionsHoldAll, ih, Bool.and_assoc]

end Lineup
