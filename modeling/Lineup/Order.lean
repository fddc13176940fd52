import Lineup.Directive
import Lineup.Member

/-!
# The order of members and directives

Two orders, each given by keys that are compared one after the other. Members are
ordered by kind, access level and modifiers and, if asked, by name. Directives are
ordered by being global, being static, declaring no alias, having a preferred start if
asked, and by what they import.
-/

namespace Lineup

/-- How members are ordered. -/
structure MemberOptions where
  /-- Whether members that are otherwise equal are ordered by name. -/
  alphabet : Bool := true
  caseSensitive : Bool := false
  /-- The member kinds that come first, in this order. -/
  kindOrder : List MemberKind := []
  deriving DecidableEq, Repr

/-- How directives are ordered. -/
structure DirectiveOptions where
  /-- Whether imports with the preferred start come before others. -/
  prefixFirst : Bool := false
  /-- The preferred start of imports; empty for the default. -/
  preferredPrefix : Text := utf8 "System"
  deriving DecidableEq, Repr

/-- How a file is put in order. -/
structure Options where
  members : MemberOptions := {}
  directives : DirectiveOptions := {}
  deriving DecidableEq, Repr

/-- Compare two values that may be absent; an absent one comes first. -/
def compareOption {α : Type} (cmp : α → α → Ordering) : Option α → Option α → Ordering
  | none, none => .eq
  | none, some _ => .lt
  | some _, none => .gt
  | some left, some right => cmp left right

/-- Compare two conditions; a value that satisfies the condition comes first. -/
def compareFlags (left right : Bool) : Ordering :=
  match left, right with
  | true, false => .lt
  | false, true => .gt
  | _, _ => .eq

/-- The ranks of member kinds after one more kind: it is ranked behind all others,
unless it has a rank already. -/
def MemberKind.addRank (ranks : List (MemberKind × Nat)) (kind : MemberKind) :
    List (MemberKind × Nat) :=
  match ranks.lookup kind with
  | some _ => ranks
  | none => ranks ++ [(kind, ranks.length)]

/-- The ranks of the member kinds: first the configured ones in their order, then all
others in their default order. -/
def MemberKind.ranks (order : List MemberKind) : List (MemberKind × Nat) :=
  MemberKind.all.foldl addRank (order.foldl addRank [])

/-- The rank of a member kind. A kind that is neither configured nor known has rank
0. -/
def MemberKind.rank (order : List MemberKind) (kind : MemberKind) : Nat :=
  ((MemberKind.ranks order).lookup kind).getD 0

/-- The name of a member as it is compared. -/
def MemberOptions.nameKey (options : MemberOptions) (name : Text) : Text :=
  if options.caseSensitive then name else name.toUpper

/-- Compare two members. -/
def MemberOptions.compare (options : MemberOptions) (left right : MemberInfo) :
    Ordering :=
  (Ord.compare (left.kind.rank options.kindOrder)
    (right.kind.rank options.kindOrder)).then
    ((Ord.compare left.access.rank right.access.rank).then
      ((Ord.compare left.modifier.rank right.modifier.rank).then
        (if options.alphabet then
          Ord.compare (options.nameKey left.name) (options.nameKey right.name)
        else .eq)))

/-- The start of imports that come first. -/
def DirectiveOptions.effectivePrefix (options : DirectiveOptions) : Text :=
  if options.preferredPrefix.isEmpty then utf8 "System" else options.preferredPrefix

/-- Whether a directive comes before others for the start of what it imports. -/
def DirectiveOptions.prefers (options : DirectiveOptions) (info : DirectiveInfo) :
    Bool :=
  options.prefixFirst && info.target.startsWith options.effectivePrefix

/-- Compare two directives. -/
def DirectiveOptions.compare (options : DirectiveOptions) (left right : DirectiveInfo) :
    Ordering :=
  (compareFlags left.isGlobal right.isGlobal).then
    ((compareFlags left.isStatic right.isStatic).then
      ((compareFlags (!left.hasAlias) (!right.hasAlias)).then
        ((compareFlags (options.prefers left) (options.prefers right)).then
          (Ord.compare left.target right.target))))

end Lineup
