import Lineup.Proofs.Token.Sealed

/-!
# Putting tokens in the place of others

When a part of a token sequence is rearranged, the tokens in front of that part have to
be read in front of other tokens than before. New tokens *follow on* from old ones when
they stand wherever the old ones were read, and they *replace* the old ones when,
moreover, all that was read in front of the old ones is still read in front of the new
ones.
-/

namespace Lineup

namespace Token

theorem Run.starting {lineStart : Bool} {tokens : List Token} {behind : Text}
    (run : Run lineStart tokens behind) (plain : Plain tokens) :
    Run true tokens behind := by
  induction tokens generalizing lineStart with
  | nil => trivial
  | cons token rest ih =>
      obtain ⟨read, later⟩ := run
      have following := ih later fun each member =>
        plain each (List.mem_cons_of_mem _ member)
      refine ⟨read.starting (plain token (by simp)).1, ?_⟩
      cases kind : token.kind with
      | directive => exact following
      | whitespace => exact following
      | newline => exact following
      | _ => simpa only [kind, startsLine] using later

/-- The tokens `new` stand wherever the tokens `old` were read. -/
def Follows (old new : List Token) : Prop :=
  ∀ lineStart, Run lineStart old [] → Stands lineStart new []

/-- The tokens `new` can stand in the place of the tokens `old` at the end of a text. -/
structure Replaces (old new : List Token) : Prop where
  plain : Plain new
  empty : old = [] → new = []
  follows : Follows old new
  before : ∀ lineStart tokens, Run lineStart (tokens ++ old) [] →
    Stands lineStart tokens (joined new)

namespace Replaces

theorem refl {tokens : List Token} (plain : Plain tokens) : Replaces tokens tokens where
  plain := plain
  empty same := same
  follows _ run := run.stands
  before _ _ run := by
    have stands := (run_append.mp run).1.stands
    rwa [List.append_nil] at stands

theorem nothing (tokens : List Token) : Replaces tokens [] where
  plain _ member := nomatch member
  empty _ := rfl
  follows _ _ := trivial
  before _ _ run := (run_append.mp run).1.stands.cut (.nothing _)

/-- Tokens that stay where they are may stand in front. -/
theorem prepend {old new : List Token} (replaces : Replaces old new)
    {tokens : List Token} (plain : Plain tokens) :
    Replaces (tokens ++ old) (tokens ++ new) where
  plain := plain.append replaces.plain
  empty none := by
    obtain ⟨rfl, rfl⟩ := List.append_eq_nil_iff.mp none
    exact replaces.empty rfl
  follows lineStart run := by
    refine stands_append.mpr ⟨?_, replaces.follows _ (run_append.mp run).2⟩
    rw [List.append_nil]
    exact replaces.before lineStart tokens run
  before lineStart front run := by
    rw [← List.append_assoc] at run
    have stands := (stands_append.mp (replaces.before lineStart _ run)).1
    rwa [joined_append]

end Replaces

namespace Follows

/-- Behind a token that is shut, tokens that follow on replace those from before. -/
theorem shut {old new : List Token} (follows : Follows old new) (plain : Plain new)
    (present : joined old ≠ []) {tokens : List Token} {final : Token}
    (shut : final.isShut = true) (others : Plain (tokens ++ [final])) :
    Replaces (tokens ++ [final] ++ old) (tokens ++ [final] ++ new) where
  plain := others.append plain
  empty none := by simp at none
  follows lineStart run := by
    obtain ⟨front, later⟩ := run_append.mp run
    refine stands_append.mpr ⟨?_, follows _ later⟩
    rw [List.append_nil] at front ⊢
    exact front.shut shut present _
  before lineStart front run := by
    rw [← List.append_assoc, ← List.append_assoc] at run
    have front := (run_append.mp run).1
    rw [List.append_nil] at front
    have stands := front.shut shut present (joined new)
    rw [List.append_assoc] at stands
    have before := (stands_append.mp stands).1
    rwa [joined_append]

end Follows

end Token

end Lineup
