import Lineup.Proofs.Order

/-!
# Comparisons as signs

Whatever the options are, members and directives stand in one line, and an absent one
stands in front of all others. Two of them share a place exactly when all their keys are
the same: the name of a member and the preferred start of a directive are keys only if
the options say so.
-/

namespace Lineup

open Std (TransCmp OrientedCmp)

/-- The sign of a comparison, negative if the left value comes first. -/
def signOf : Ordering → Int
  | .lt => -1
  | .eq => 0
  | .gt => 1

theorem signOf_cases (ordering : Ordering) :
    signOf ordering = -1 ∨ signOf ordering = 0 ∨ signOf ordering = 1 := by
  cases ordering <;> decide

theorem signOf_swap (ordering : Ordering) :
    signOf ordering.swap = -signOf ordering := by
  cases ordering <;> rfl

theorem signOf_eq_zero {ordering : Ordering} :
    signOf ordering = 0 ↔ ordering = .eq := by
  cases ordering <;> decide

theorem signOf_nonpos {ordering : Ordering} :
    signOf ordering ≤ 0 ↔ ordering.isLE = true := by
  cases ordering <;> decide

/-- Values that may be absent stand in one line, and the absent ones in front of all
others. -/
structure LinesUp {α : Type} (compare : Option α → Option α → Int) : Prop where
  signs : ∀ left right, compare left right = -1 ∨ compare left right = 0
    ∨ compare left right = 1
  swap : ∀ left right, compare left right = -compare right left
  trans : ∀ left middle right, compare left middle ≤ 0 → compare middle right ≤ 0 →
    compare left right ≤ 0
  absent : compare none none = 0
  least : ∀ value, compare none (some value) = -1

section Absent

variable {α : Type} (cmp : α → α → Ordering) [TransCmp cmp]

theorem transCmp_compareOption : TransCmp (compareOption cmp) where
  eq_swap {left right} := by
    cases left with
    | none => cases right <;> rfl
    | some left =>
        cases right with
        | none => rfl
        | some right =>
            have swap : cmp left right = (cmp right left).swap := OrientedCmp.eq_swap
            exact swap
  isLE_trans {left middle right} first second := by
    cases left with
    | none => cases right <;> rfl
    | some left =>
        cases middle with
        | none => cases first
        | some middle =>
            cases right with
            | none => cases second
            | some right =>
                have trans : (cmp left right).isLE = true :=
                  TransCmp.isLE_trans first second
                exact trans

theorem linesUp_compareOption :
    LinesUp fun left right => signOf (compareOption cmp left right) where
  signs left right := signOf_cases _
  swap left right := by
    have total := transCmp_compareOption cmp
    rw [← signOf_swap]
    exact congrArg signOf OrientedCmp.eq_swap
  trans left middle right first second := by
    have total := transCmp_compareOption cmp
    rw [signOf_nonpos] at first second ⊢
    exact TransCmp.isLE_trans first second
  absent := rfl
  least _ := rfl

end Absent

theorem compareFlags_eq_iff {left right : Bool} :
    compareFlags left right = .eq ↔ left = right := by
  cases left <;> cases right <;> decide

/-- Two members share a place exactly when their keys are the same. -/
theorem MemberOptions.compare_eq_iff (options : MemberOptions)
    (left right : MemberInfo) :
    options.compare left right = .eq
      ↔ left.kind.rank options.kindOrder = right.kind.rank options.kindOrder
        ∧ left.access.rank = right.access.rank
        ∧ left.modifier.rank = right.modifier.rank
        ∧ (options.alphabet = true →
          options.nameKey left.name = options.nameKey right.name) := by
  have names :
      (if options.alphabet = true then
          Ord.compare (options.nameKey left.name) (options.nameKey right.name)
        else .eq) = .eq
      ↔ (options.alphabet = true →
        options.nameKey left.name = options.nameKey right.name) := by
    cases options.alphabet <;> simp
  rw [compare, Ordering.then_eq_eq, Ordering.then_eq_eq, Ordering.then_eq_eq, names,
    Std.compare_eq_iff_eq, Std.compare_eq_iff_eq, Std.compare_eq_iff_eq]

/-- Two directives share a place exactly when their keys are the same. -/
theorem DirectiveOptions.compare_eq_iff (options : DirectiveOptions)
    (left right : DirectiveInfo) :
    options.compare left right = .eq
      ↔ left.isGlobal = right.isGlobal ∧ left.isStatic = right.isStatic
        ∧ left.hasAlias = right.hasAlias
        ∧ (options.prefixFirst = true → left.target.startsWith options.effectivePrefix
          = right.target.startsWith options.effectivePrefix)
        ∧ left.target = right.target := by
  have preferred : options.prefers left = options.prefers right
      ↔ (options.prefixFirst = true → left.target.startsWith options.effectivePrefix
        = right.target.startsWith options.effectivePrefix) := by
    rw [prefers, prefers]
    cases options.prefixFirst <;> simp
  rw [compare, Ordering.then_eq_eq, Ordering.then_eq_eq, Ordering.then_eq_eq,
    Ordering.then_eq_eq, compareFlags_eq_iff, compareFlags_eq_iff, compareFlags_eq_iff,
    compareFlags_eq_iff, preferred, Std.compare_eq_iff_eq, Bool.not_inj_iff]

/-- Under all options members and directives line up, and two of them tie exactly when
the keys that the options ask for are the same. -/
theorem linesUp_compare (members : MemberOptions) (directives : DirectiveOptions) :
    LinesUp (fun left right => signOf (compareOption members.compare left right))
      ∧ (∀ left right : MemberInfo,
        signOf (compareOption members.compare (some left) (some right)) = 0
          ↔ left.kind.rank members.kindOrder = right.kind.rank members.kindOrder
            ∧ left.access.rank = right.access.rank
            ∧ left.modifier.rank = right.modifier.rank
            ∧ (members.alphabet = true →
              members.nameKey left.name = members.nameKey right.name))
      ∧ LinesUp (fun left right => signOf (compareOption directives.compare left right))
      ∧ ∀ left right : DirectiveInfo,
        signOf (compareOption directives.compare (some left) (some right)) = 0
          ↔ left.isGlobal = right.isGlobal ∧ left.isStatic = right.isStatic
            ∧ left.hasAlias = right.hasAlias
            ∧ (directives.prefixFirst = true →
              left.target.startsWith directives.effectivePrefix
                = right.target.startsWith directives.effectivePrefix)
            ∧ left.target = right.target := by
  have ofMembers := members.transCmp_compare
  have ofDirectives := directives.transCmp_compare
  refine ⟨linesUp_compareOption _, fun left right =>
    ?_, linesUp_compareOption _, fun left right => ?_⟩
  · rw [signOf_eq_zero, compareOption, members.compare_eq_iff]
  · rw [signOf_eq_zero, compareOption, directives.compare_eq_iff]

end Lineup
