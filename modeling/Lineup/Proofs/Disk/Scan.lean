import Lineup.Disk.Scan
import Lineup.Proofs.Disk.Views
import Lineup.Proofs.Path

/-!
# What a search finds

A search goes down a tree and leaves out whole directories on its way. Whether it finds
a file can be told from the names that lead to the file alone: no directory on the way
may be left out, and the file itself has to be a source file.
-/

namespace Lineup

namespace Entry

/-- All names below an entry can stand between the slashes of a path. -/
inductive Named : Entry → Prop
  | file (found : File) : Named (.file found)
  | link (target : Text) : Named (.link target)
  | directory {children : List (Text × Entry)}
      (proper : ∀ child ∈ children, Path.IsSegment child.1)
      (named : ∀ child ∈ children, Named child.2) : Named (.directory children)

/-- A search of the directory at a path goes along names to their end. -/
def Passes (skip : Text → Bool) : Text → List Text → Prop
  | _, [] => False
  | path, [name] => SourceFile.isSource name = true ∧ skip (Path.join path name) = false
  | path, name :: next :: names =>
      SourceFile.isBuildOutput name = false ∧ skip (Path.join path name) = false
        ∧ Passes skip (Path.join path name) (next :: names)

variable {skip : Text → Bool} {path name found : Text} {names : List Text}
  {entry leaf : Entry}
variable {children : List (Text × Entry)}

theorem mem_of_lookup (there : children.lookup name = some entry) :
    (name, entry) ∈ children := by
  obtain ⟨before, after, rfl, -⟩ := List.lookup_eq_some_iff.mp there
  exact List.mem_append_right before List.mem_cons_self

theorem get?_cons_eq_some_iff : (directory children).get? (name :: names) = some leaf
    ↔ ∃ child, children.lookup name = some child ∧ child.get? names = some leaf := by
  rw [get?_cons, Option.bind_eq_some_iff]

/-- What has something below it is a directory. -/
theorem exists_of_get?_cons (there : entry.get? (name :: names) = some leaf) :
    ∃ children, entry = directory children := by
  cases entry with
  | file _ => cases there
  | link _ => cases there
  | directory children => exact ⟨children, rfl⟩

theorem Named.isSegment (named : entry.Named) (there : entry.get? names = some leaf) :
    ∀ name ∈ names, Path.IsSegment name := by
  induction names generalizing entry with
  | nil => simp
  | cons name names ih =>
      cases named with
      | file _ => cases there
      | link _ => cases there
      | directory proper named =>
          obtain ⟨child, known, below⟩ := get?_cons_eq_some_iff.mp there
          have member := mem_of_lookup known
          exact List.forall_mem_cons.mpr ⟨proper _ member, ih (named _ member) below⟩

theorem mem_sourcesIn : found ∈ sourcesIn skip path children
    ↔ ∃ child ∈ children,
      found ∈ child.2.sources skip (Path.join path child.1) child.1 := by
  induction children with
  | nil => simp [sourcesIn]
  | cons child children ih =>
      obtain ⟨name, entry⟩ := child
      simp [sourcesIn, ih]

theorem mem_sources_leaf (isLeaf : leaf.isDirectory = false) :
    found ∈ leaf.sources skip path name
    ↔ found = path ∧ SourceFile.isSource name = true ∧ skip path = false := by
  have alone : leaf.sources skip path name
      = if SourceFile.isSource name && !skip path then [path] else [] := by
    cases leaf with
    | file _ => rfl
    | link _ => rfl
    | directory _ => cases isLeaf
  rw [alone, List.mem_ite_nil_right, Bool.and_eq_true, Bool.not_eq_true',
    List.mem_singleton]
  exact and_comm

theorem passes_cons (present : names ≠ []) : Passes skip path (name :: names)
    ↔ SourceFile.isBuildOutput name = false ∧ skip (Path.join path name) = false
      ∧ Passes skip (Path.join path name) names := by
  cases names with
  | nil => exact absurd rfl present
  | cons next names => exact Iff.rfl

theorem Passes.ne_nil (passes : Passes skip path names) : names ≠ [] := by
  rintro rfl
  exact passes

/-- A path is found by a search of the directory at another one, along some names. -/
def Finds (skip : Text → Bool) (path found : Text) : Prop :=
  ∃ names, (∀ name ∈ names, Path.IsSegment name) ∧ Passes skip path names
    ∧ found = names.foldl Path.join path

theorem finds_of_leaf (isLeaf : leaf.isDirectory = false) (proper : Path.IsSegment name)
    (member : found ∈ leaf.sources skip (Path.join path name) name) :
    Finds skip path found := by
  obtain ⟨here, passes⟩ := (mem_sources_leaf isLeaf).mp member
  exact ⟨[name], List.forall_mem_singleton.mpr proper, passes, here⟩

theorem Finds.within (proper : Path.IsSegment name)
    (searched : SourceFile.isBuildOutput name = false)
    (kept : skip (Path.join path name) = false)
    (finds : Finds skip (Path.join path name) found) :
    Finds skip path found := by
  obtain ⟨names, each, passes, rfl⟩ := finds
  exact ⟨name :: names, List.forall_mem_cons.mpr ⟨proper, each⟩,
    (passes_cons passes.ne_nil).mpr ⟨searched, kept, passes⟩, rfl⟩

/-- Whatever is found at or below an entry is found along names. -/
theorem Named.finds (named : entry.Named) (proper : Path.IsSegment name)
    (member : found ∈ entry.sources skip (Path.join path name) name) :
    Finds skip path found := by
  induction named generalizing path name with
  | file _ => exact finds_of_leaf rfl proper member
  | link _ => exact finds_of_leaf rfl proper member
  | directory each _ ih =>
      rw [sources] at member
      split at member
      · cases member
      · rename_i searched
        rw [Bool.or_eq_true, not_or, Bool.not_eq_true, Bool.not_eq_true] at searched
        obtain ⟨child, inside, below⟩ := mem_sourcesIn.mp member
        exact (ih child inside (each child inside) below).within proper searched.1
          searched.2

theorem mem_sourcesIn_of_passes (there : (directory children).get? names = some leaf)
    (isLeaf : leaf.isDirectory = false) (passes : Passes skip path names) :
    names.foldl Path.join path ∈ sourcesIn skip path children := by
  induction names generalizing path children with
  | nil => exact absurd rfl passes.ne_nil
  | cons name names ih =>
      obtain ⟨child, known, below⟩ := get?_cons_eq_some_iff.mp there
      refine mem_sourcesIn.mpr ⟨(name, child), mem_of_lookup known, ?_⟩
      cases names with
      | nil =>
          rw [get?_nil, Option.some.injEq] at below
          subst below
          exact (mem_sources_leaf isLeaf).mpr ⟨rfl, passes⟩
      | cons next names =>
          obtain ⟨inner, rfl⟩ := exists_of_get?_cons below
          obtain ⟨searched, kept, passes⟩ := passes
          rw [sources, searched, kept]
          exact ih below passes

/-- A search finds what names lead to if and only if it passes along them. -/
theorem mem_sourcesIn_iff (named : (directory children).Named)
    (there : (directory children).get? names = some leaf)
    (isLeaf : leaf.isDirectory = false) :
    names.foldl Path.join path ∈ sourcesIn skip path children
      ↔ Passes skip path names := by
  have proper := named.isSegment there
  constructor
  · intro member
    obtain ⟨child, inside, below⟩ := mem_sourcesIn.mp member
    cases named with
    | directory each named =>
        obtain ⟨others, whole, passes, same⟩ :=
          (named child inside).finds (each child inside) below
        rwa [Path.foldl_join_injective proper whole same]
  · exact mem_sourcesIn_of_passes there isLeaf

end Entry

end Lineup
