import Mathlib.Data.List.Basic

/-!
# Nested marks

Brackets and directives open and close sections of a text. A stack of the open sections
reads such marks one after the other: a section is closed by a mark of its own kind, and
only the innermost one can be divided or closed. Marks are properly nested when the
stack is empty again at the end.
-/

namespace Lineup

/-- A mark that opens, divides or closes a section of some kind. -/
inductive Mark (Kind : Type) where
  | opens (kind : Kind)
  | divides (kind : Kind)
  | closes (kind : Kind)
  deriving DecidableEq, Repr

namespace Mark

variable {Kind : Type} [DecidableEq Kind]

/-- The open sections behind a mark, innermost first, unless the mark does not fit. -/
def step (stack : List Kind) : Mark Kind → Option (List Kind)
  | .opens kind => some (kind :: stack)
  | .divides kind => if stack.head? = some kind then some stack else none
  | .closes kind => if stack.head? = some kind then some stack.tail else none

/-- The open sections behind all the marks, unless one of them does not fit. -/
def run (stack : List Kind) : List (Mark Kind) → Option (List Kind)
  | [] => some stack
  | mark :: marks => (step stack mark).bind fun stack => run stack marks

/-- Every section is closed, and no mark misses its section. -/
def Nested (marks : List (Mark Kind)) : Prop :=
  run [] marks = some []

instance (marks : List (Mark Kind)) : Decidable (Nested marks) :=
  inferInstanceAs (Decidable (run [] marks = some []))

theorem run_append (stack : List Kind) (marks others : List (Mark Kind)) :
    run stack (marks ++ others) = (run stack marks).bind fun stack =>
      run stack others := by
  induction marks generalizing stack with
  | nil => rfl
  | cons mark marks ih =>
      simp only [List.cons_append, run]
      cases step stack mark with
      | none => rfl
      | some stack => exact ih stack

/-- What a mark that fits does to the open sections. -/
inductive Fits : List Kind → Mark Kind → List Kind → Prop where
  | opens (stack : List Kind) (kind : Kind) : Fits stack (.opens kind) (kind :: stack)
  | divides (kind : Kind) (outer : List Kind) :
        Fits (kind :: outer) (.divides kind) (kind :: outer)
  | closes (kind : Kind) (outer : List Kind) : Fits (kind :: outer) (.closes kind) outer

theorem step_eq_some_iff {stack next : List Kind} {mark : Mark Kind} :
    step stack mark = some next ↔ Fits stack mark next := by
  constructor
  · intro steps
    cases mark with
    | opens kind =>
        cases steps
        exact .opens stack kind
    | divides kind =>
        obtain ⟨inner, same⟩ := Option.ite_none_right_eq_some.mp steps
        obtain ⟨outer, rfl⟩ := List.head?_eq_some_iff.mp inner
        cases same
        exact .divides kind outer
    | closes kind =>
        obtain ⟨inner, same⟩ := Option.ite_none_right_eq_some.mp steps
        obtain ⟨outer, rfl⟩ := List.head?_eq_some_iff.mp inner
        cases same
        exact .closes kind outer
  · intro fits
    cases fits with
    | opens => rfl
    | divides => exact if_pos rfl
    | closes => exact if_pos rfl

theorem run_cons_eq_some_iff {stack final : List Kind} {mark : Mark Kind}
    {marks : List (Mark Kind)} :
    run stack (mark :: marks) = some final
      ↔ ∃ next, Fits stack mark next ∧ run next marks = some final := by
  simp only [run, Option.bind_eq_some_iff, step_eq_some_iff]

/-- The number of open sections of a kind changes as a mark says. -/
theorem Fits.count {stack next : List Kind} {mark : Mark Kind}
    (fits : Fits stack mark next) (kind : Kind) :
    stack.count kind + [mark].count (.opens kind)
      = next.count kind + [mark].count (.closes kind) := by
  cases fits with
  | opens stack other => by_cases same : other = kind <;> simp [same]
  | divides other outer => simp
  | closes other outer => by_cases same : other = kind <;> simp [same]

theorem count_run {stack final : List Kind} {marks : List (Mark Kind)}
    (runs : run stack marks = some final) (kind : Kind) :
    stack.count kind + marks.count (.opens kind)
      = final.count kind + marks.count (.closes kind) := by
  induction marks generalizing stack with
  | nil =>
      cases runs
      rfl
  | cons mark marks ih =>
      obtain ⟨next, fits, later⟩ := run_cons_eq_some_iff.mp runs
      have first := fits.count kind
      have others := ih later
      rw [← List.singleton_append, List.count_append, List.count_append]
      omega

/-- From every mark on, as many sections are closed as are opened. -/
theorem Nested.count_le {marks part : List (Mark Kind)} (nested : Nested marks)
    (ending : part <:+ marks) (kind : Kind) :
    part.count (.opens kind) ≤ part.count (.closes kind) := by
  obtain ⟨front, rfl⟩ := ending
  rw [Nested, run_append] at nested
  obtain ⟨stack, -, later⟩ := Option.bind_eq_some_iff.mp nested
  have counts := count_run later kind
  rw [List.count_nil] at counts
  omega

/-- Sections that were open before stay as they are below those that marks work on. -/
theorem run_frame {stack final : List Kind} {marks : List (Mark Kind)}
    (runs : run stack marks = some final) (outer : List Kind) :
    run (stack ++ outer) marks = some (final ++ outer) := by
  induction marks generalizing stack with
  | nil =>
      cases runs
      rfl
  | cons mark marks ih =>
      obtain ⟨next, fits, later⟩ := run_cons_eq_some_iff.mp runs
      have framed : Fits (stack ++ outer) mark (next ++ outer) := by
        cases fits with
        | opens => exact .opens _ _
        | divides => exact .divides _ _
        | closes => exact .closes _ _
      exact run_cons_eq_some_iff.mpr ⟨_, framed, ih later⟩

/-- Both do the same to all open sections. -/
def Same (marks others : List (Mark Kind)) : Prop :=
  ∀ stack, run stack marks = run stack others

namespace Same

variable {marks others more more' : List (Mark Kind)}

theorem refl (marks : List (Mark Kind)) : Same marks marks := fun _ => rfl

theorem trans (first : Same marks others) (second : Same others more) :
    Same marks more :=
  fun stack => (first stack).trans (second stack)

theorem symm (same : Same marks others) : Same others marks :=
  fun stack => (same stack).symm

theorem append (first : Same marks others) (second : Same more more') :
    Same (marks ++ more) (others ++ more') := by
  intro stack
  rw [run_append, run_append, first stack]
  exact congrArg _ (funext second)

theorem flatMap_nil {α : Type} {items : List α} {part : α → List (Mark Kind)}
    (neutral : ∀ item ∈ items, Same (part item) []) : Same (items.flatMap part) [] := by
  induction items with
  | nil => exact refl []
  | cons item items ih =>
      rw [List.forall_mem_cons] at neutral
      exact neutral.1.append (ih neutral.2)

theorem nested (same : Same marks others) (nested : Nested others) : Nested marks :=
  (same []).trans nested

end Same

/-- Properly nested marks change nothing. -/
theorem Nested.same_nil {marks : List (Mark Kind)} (nested : Nested marks) :
    Same marks [] :=
  fun stack => run_frame nested stack

end Mark

end Lineup
