import Mathlib.Data.List.Nodup
import Lineup.Order

/-!
# The ranks of member kinds

Kinds are ranked one after the other: each takes the next free rank, unless it has one
already. So the ranks are the numbers from zero on without a gap, each kind has one of
its own, and a kind comes before another exactly if it was named before it for the first
time. The configured kinds are named first, and then all kinds in their default order.
-/

namespace Lineup

namespace MemberKind

/-- The ranks of the kinds that were named so far. -/
structure Ranked (named : List MemberKind) (ranks : List (MemberKind × Nat)) :
    Prop where
  kinds : ∀ kind, kind ∈ ranks.map Prod.fst ↔ kind ∈ named
  distinct : (ranks.map Prod.fst).Nodup
  /-- There is no gap between the ranks. -/
  numbers : ranks.map Prod.snd = List.range ranks.length
  /-- Kinds are ranked by their first occurrence. -/
  rising : ∀ first ∈ ranks, ∀ second ∈ ranks,
    first.2 < second.2 ↔ named.idxOf first.1 < named.idxOf second.1

namespace Ranked

variable {named : List MemberKind} {ranks : List (MemberKind × Nat)}

theorem nil : Ranked [] [] := by
  constructor <;> simp

section Entries

variable (ranked : Ranked named ranks)

include ranked

theorem rank_lt {entry : MemberKind × Nat} (member : entry ∈ ranks) :
    entry.2 < ranks.length := by
  have number := List.mem_map_of_mem (f := Prod.snd) member
  rwa [ranked.numbers, List.mem_range] at number

theorem mem_named {entry : MemberKind × Nat} (member : entry ∈ ranks) :
    entry.1 ∈ named :=
  (ranked.kinds entry.1).mp (List.mem_map_of_mem member)

/-- The rank of a kind is found by the kind. -/
theorem lookup_eq_some_iff (kind : MemberKind) (rank : Nat) :
    ranks.lookup kind = some rank ↔ (kind, rank) ∈ ranks := by
  rw [List.lookup_eq_some_iff]
  constructor
  · rintro ⟨before, after, rfl, -⟩
    simp
  · intro member
    obtain ⟨before, after, rfl⟩ := List.append_of_mem member
    refine ⟨before, after, rfl, fun other earlier => ?_⟩
    have distinct := ranked.distinct
    rw [List.map_append, List.map_cons, List.nodup_append] at distinct
    have apart := distinct.2.2 other.1 (List.mem_map_of_mem earlier) kind
      List.mem_cons_self
    simpa using apart.symm

theorem lookup_eq_none_iff (kind : MemberKind) :
    ranks.lookup kind = none ↔ kind ∉ named := by
  rw [← ranked.kinds, List.lookup_eq_none_iff, List.mem_map]
  constructor
  · rintro differs ⟨entry, member, rfl⟩
    exact absurd rfl (bne_iff_ne.mp (differs entry member))
  · intro new entry member
    exact bne_iff_ne.mpr fun same => new ⟨entry, member, same.symm⟩

/-- A kind that was named before keeps its place among the first occurrences. -/
theorem again {kind : MemberKind} (member : kind ∈ named) :
    Ranked (named ++ [kind]) ranks where
  kinds other := by
    rw [ranked.kinds, List.mem_append, List.mem_singleton]
    exact ⟨.inl, fun either => either.elim id fun same => same ▸ member⟩
  distinct := ranked.distinct
  numbers := ranked.numbers
  rising first here second there := by
    rw [ranked.rising first here second there, List.idxOf_append, List.idxOf_append,
      if_pos (ranked.mem_named here), if_pos (ranked.mem_named there)]

theorem concat {kind : MemberKind} (new : kind ∉ named) :
    Ranked (named ++ [kind]) (ranks ++ [(kind, ranks.length)]) where
  kinds other := by
    rw [List.map_append, List.mem_append, List.mem_append, ranked.kinds]
    simp
  distinct := by
    rw [← ranked.kinds] at new
    rw [List.map_append, List.nodup_append]
    refine ⟨ranked.distinct, List.nodup_singleton _, fun other earlier last is => ?_⟩
    rintro rfl
    rw [List.mem_singleton.mp is] at earlier
    exact new earlier
  numbers := by
    rw [List.map_append, ranked.numbers, List.length_append, List.length_singleton,
      List.range_succ]
    rfl
  rising first here second there := by
    have old {entry : MemberKind × Nat} (member : entry ∈ ranks) :
        entry.2 < ranks.length ∧ (named ++ [kind]).idxOf entry.1 = named.idxOf entry.1
          ∧ named.idxOf entry.1 < named.length := by
      have among := ranked.mem_named member
      refine ⟨ranked.rank_lt member, ?_, List.idxOf_lt_length_iff.mpr among⟩
      rw [List.idxOf_append, if_pos among]
    have last : (named ++ [kind]).idxOf kind = named.length := by
      rw [List.idxOf_append, if_neg new, List.idxOf_cons_self, Nat.zero_add]
    rw [List.mem_append, List.mem_singleton] at here there
    rcases here with here | rfl
    · obtain ⟨lower, place, before⟩ := old here
      rcases there with there | rfl
      · rw [place, (old there).2.1]
        exact ranked.rising first here second there
      · rw [place, last]
        exact iff_of_true lower before
    · rcases there with there | rfl
      · obtain ⟨lower, place, before⟩ := old there
        rw [place, last]
        exact iff_of_false (Nat.not_lt.mpr (Nat.le_of_lt lower))
          (Nat.not_lt.mpr (Nat.le_of_lt before))
      · exact iff_of_false (Nat.lt_irrefl _) (Nat.lt_irrefl _)

/-- One more kind is ranked behind all others, unless it has a rank already. -/
theorem addRank (kind : MemberKind) :
    Ranked (named ++ [kind]) (MemberKind.addRank ranks kind) := by
  rw [MemberKind.addRank]
  cases found : ranks.lookup kind with
  | some rank =>
      exact ranked.again
        (ranked.mem_named ((ranked.lookup_eq_some_iff kind rank).mp found))
  | none => exact ranked.concat ((ranked.lookup_eq_none_iff kind).mp found)

end Entries

theorem foldl (ranked : Ranked named ranks) (kinds : List MemberKind) :
    Ranked (named ++ kinds) (kinds.foldl MemberKind.addRank ranks) := by
  induction kinds generalizing named ranks with
  | nil => simpa using ranked
  | cons kind kinds ih =>
      rw [List.append_cons]
      exact ih (ranked.addRank kind)

end Ranked

theorem ranked_ranks (order : List MemberKind) :
    Ranked (order ++ all) (ranks order) := by
  have configured := Ranked.nil.foldl order
  rw [List.nil_append] at configured
  exact configured.foldl all

variable {order : List MemberKind} {first second : MemberKind}

/-- A kind that is configured or known has an entry, and its rank is the one that is
entered. -/
theorem mem_ranks (member : first ∈ order ++ all) :
    (first, first.rank order) ∈ ranks order := by
  have ranked := ranked_ranks order
  obtain ⟨⟨kind, rank⟩, entered, rfl⟩ :=
    List.mem_map.mp ((ranked.kinds first).mpr member)
  have found := (ranked.lookup_eq_some_iff kind rank).mpr entered
  rw [MemberKind.rank, found]
  exact entered

/-- Kinds that are configured or known are ranked by where they are named first. -/
theorem rank_lt_rank_iff (member : first ∈ order ++ all)
    (also : second ∈ order ++ all) :
    first.rank order < second.rank order
      ↔ (order ++ all).idxOf first < (order ++ all).idxOf second := by
  have rising := (ranked_ranks order).rising _ (mem_ranks member) _ (mem_ranks also)
  dsimp only at rising
  exact rising

/-- Kinds that are configured or known have different ranks. -/
theorem eq_of_rank_eq (member : first ∈ order ++ all) (also : second ∈ order ++ all)
    (same : first.rank order = second.rank order) : first = second := by
  have numbers : ((ranks order).map Prod.snd).Nodup := by
    rw [(ranked_ranks order).numbers]
    exact List.nodup_range
  have entries := List.inj_on_of_nodup_map numbers (mem_ranks member) (mem_ranks also)
  dsimp only at entries
  exact congrArg Prod.fst (entries same)

theorem idxOf_listed (listed : first ∈ order) :
    (order ++ all).idxOf first = order.idxOf first := by
  rw [List.idxOf_append, if_pos listed]

theorem idxOf_unlisted (unlisted : first ∉ order) :
    (order ++ all).idxOf first = order.length + all.idxOf first := by
  rw [List.idxOf_append, if_neg unlisted, Nat.add_comm]

/-- Whatever kinds are configured, those and all known kinds have ranks of their own,
which are the numbers from zero on. The configured kinds are ranked by their first
occurrence and before all others, and the others are ranked in their default order; so
no two known kinds tie. -/
theorem ranks_by_occurrence (order : List MemberKind) :
    (∀ kind, kind ∈ (ranks order).map Prod.fst ↔ kind ∈ order ∨ kind ∈ all)
      ∧ ((ranks order).map Prod.fst).Nodup
      ∧ (ranks order).map Prod.snd = List.range (ranks order).length
      ∧ (∀ kind rank, (kind, rank) ∈ ranks order → kind.rank order = rank)
      ∧ (∀ first ∈ order, ∀ second ∈ order,
        first.rank order < second.rank order ↔ order.idxOf first < order.idxOf second)
      ∧ (∀ first ∈ order, ∀ second ∈ all, second ∉ order →
        first.rank order < second.rank order)
      ∧ (∀ first ∈ all, first ∉ order → ∀ second ∈ all, second ∉ order →
        (first.rank order < second.rank order ↔ all.idxOf first < all.idxOf second))
      ∧ ∀ first ∈ all, ∀ second ∈ all, first ≠ second →
        first.rank order ≠ second.rank order := by
  have ranked := ranked_ranks order
  have named {kind : MemberKind} : kind ∈ order ++ all ↔ kind ∈ order ∨ kind ∈ all :=
    List.mem_append
  refine ⟨fun kind => (ranked.kinds kind).trans named, ranked.distinct, ranked.numbers,
    ?_, ?_, ?_, ?_, ?_⟩
  · intro kind rank entered
    rw [MemberKind.rank, (ranked.lookup_eq_some_iff kind rank).mpr entered,
      Option.getD_some]
  · intro first listed second also
    rw [rank_lt_rank_iff (named.mpr (.inl listed)) (named.mpr (.inl also)),
      idxOf_listed listed, idxOf_listed also]
  · intro first listed second known unlisted
    rw [rank_lt_rank_iff (named.mpr (.inl listed)) (named.mpr (.inr known)),
      idxOf_listed listed, idxOf_unlisted unlisted]
    exact Nat.lt_add_right _ (List.idxOf_lt_length_iff.mpr listed)
  · intro first known unlisted second also unlisted'
    rw [rank_lt_rank_iff (named.mpr (.inr known)) (named.mpr (.inr also)),
      idxOf_unlisted unlisted, idxOf_unlisted unlisted', Nat.add_lt_add_iff_left]
  · intro first known second also different same
    exact different (eq_of_rank_eq (named.mpr (.inr known))
      (named.mpr (.inr also)) same)

end MemberKind

end Lineup
