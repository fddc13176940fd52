import Lineup.Disk

/-!
# What is seen on a disk

A disk is seen through the items at the names that lead to them. Putting a file
somewhere, or taking one away, changes what is seen there and nothing else.
-/

namespace Lineup

namespace Entry

/-- What can be seen of an entry itself. -/
def item : Entry → Item
  | file found => .file found.data found.mode
  | directory _ => .directory
  | link target => .link target

/-- What is seen at the given names below an entry. -/
def item? (entry : Entry) (names : List Text) : Option Item :=
  (entry.get? names).map item

theorem item_eq_directory_iff {entry : Entry} :
    entry.item = .directory ↔ ∃ children, entry = directory children := by
  cases entry <;> simp [item]

theorem item_eq_link_iff {entry : Entry} {target : Text} :
    entry.item = .link target ↔ entry = link target := by
  cases entry <;> simp [item]

theorem item_eq_file_iff {entry : Entry} {data : Text} {mode : Nat} :
    entry.item = .file data mode ↔ ∃ id, entry = file ⟨data, mode, id⟩ := by
  cases entry with
  | file found =>
      cases found
      simp [item]
  | directory children => simp [item]
  | link target => simp [item]

@[simp]
theorem get?_nil (entry : Entry) : entry.get? [] = some entry := by
  cases entry <;> rfl

theorem get?_cons (children : List (Text × Entry)) (name : Text) (names : List Text) :
    (directory children).get? (name :: names)
      = (children.lookup name).bind (·.get? names) := by
  rw [get?]
  cases children.lookup name <;> rfl

theorem get?_cons_of_leaf {entry : Entry} (leaf : entry.item ≠ .directory) (name : Text)
    (names : List Text) : entry.get? (name :: names) = none := by
  cases entry with
  | file found => rfl
  | directory children => exact absurd rfl leaf
  | link target => rfl

theorem get?_concat {root : Entry} {position : List Text}
    {children : List (Text × Entry)}
    (found : root.get? position = some (directory children)) (name : Text) :
    root.get? (position ++ [name]) = children.lookup name := by
  induction position generalizing root with
  | nil =>
      rw [get?_nil, Option.some.injEq] at found
      subst found
      rw [List.nil_append, get?_cons]
      cases children.lookup name <;> simp
  | cons first position ih =>
      cases root with
      | directory others =>
          rw [get?_cons] at found
          rw [List.cons_append, get?_cons]
          cases there : others.lookup first with
          | none =>
              rw [there] at found
              cases found
          | some child =>
              rw [there] at found
              exact ih found
      | file _ => cases found
      | link _ => cases found

theorem lookup_setChild_self (name : Text) (child : Option Entry)
    (children : List (Text × Entry)) :
    (setChild name child children).lookup name = child := by
  have gone : (children.filter fun entry => entry.1 != name).lookup name = none := by
    rw [List.lookup_eq_none_iff]
    intro entry member
    rw [bne_comm]
    exact (List.mem_filter.mp member).2
  cases child with
  | none => exact gone
  | some entry =>
      rw [setChild, List.lookup_append, gone, List.lookup_cons_self, Option.none_or]

theorem lookup_setChild_of_ne {name other : Text} (different : other ≠ name)
    (child : Option Entry) (children : List (Text × Entry)) :
    (setChild name child children).lookup other = children.lookup other := by
  have kept : (children.filter fun entry => entry.1 != name).lookup other
      = children.lookup other := by
    induction children with
    | nil => rfl
    | cons first children ih =>
        by_cases removed : first.1 = name
        · have skipped : (other == first.1) = false := by simp [removed, different]
          rw [List.filter_cons_of_neg (by simp [removed]), ih, List.lookup_cons,
            skipped]
        · rw [List.filter_cons_of_pos (by simp [removed]), List.lookup_cons,
            List.lookup_cons, ih]
  cases child with
  | none => exact kept
  | some entry =>
      have last : [(name, entry)].lookup other = none := by
        rw [List.lookup_cons, beq_eq_false_iff_ne.mpr different]
        rfl
      rw [setChild, List.lookup_append, kept, last, Option.or_none]

theorem set_cons (new : Option Entry) {children : List (Text × Entry)} {name : Text}
    {child : Entry} (found : children.lookup name = some child) {names : List Text}
    (more : names ≠ []) :
    (directory children).set new (name :: names)
      = directory (setChild name (some (child.set new names)) children) := by
  cases names with
  | nil => exact absurd rfl more
  | cons next names => rw [set, found]; simp

/-- A new entry in a directory is seen in its own place only, if neither it nor what was
there before is a directory. -/
theorem item?_set {root : Entry} {position : List Text} {children : List (Text × Entry)}
    {name : Text} {new : Option Entry}
    (found : root.get? position = some (directory children))
    (oldLeaf : root.item? (position ++ [name]) ≠ some .directory)
    (newLeaf : new.map item ≠ some .directory) (names : List Text) :
    (root.set new (position ++ [name])).item? names
      = if names = position ++ [name] then new.map item else root.item? names := by
  have below {entry : Option Entry} (leaf : entry.map item ≠ some .directory)
      (next : Text) (rest : List Text) : entry.bind (·.get? (next :: rest)) = none := by
    cases entry with
    | none => rfl
    | some entry => exact get?_cons_of_leaf (by simpa using leaf) next rest
  rw [item?, get?_concat found] at oldLeaf
  simp only [item?]
  -- The way down to the directory decides where the entry is replaced.
  induction position generalizing root names with
  | nil =>
      rw [get?_nil, Option.some.injEq] at found
      subst found
      rw [List.nil_append, set]
      cases names with
      | nil => simp [item]
      | cons first rest =>
          rw [get?_cons, get?_cons]
          by_cases same : first = name
          · subst same
            rw [lookup_setChild_self]
            cases rest with
            | nil => simp
            | cons next rest => rw [below newLeaf, below oldLeaf]; simp
          · rw [lookup_setChild_of_ne same]
            simp [same]
  | cons first position ih =>
      cases root with
      | directory others =>
          rw [get?_cons, Option.bind_eq_some_iff] at found
          obtain ⟨child, there, found⟩ := found
          rw [List.cons_append, set_cons new there (by simp)]
          cases names with
          | nil => simp [item]
          | cons next rest =>
              rw [get?_cons, get?_cons]
              by_cases same : next = first
              · subst same
                rw [lookup_setChild_self, there, Option.bind_some, Option.bind_some,
                  ih found rest]
                simp
              · rw [lookup_setChild_of_ne same]
                simp [same]
      | file _ => cases found
      | link _ => cases found

end Entry

namespace Disk

/-- What is seen on a disk at the given names. -/
def item? (disk : Disk) (names : List Text) : Option Entry.Item :=
  disk.root.item? names

theorem item?_eq_directory_iff {disk : Disk} {names : List Text} :
    disk.item? names = some .directory
      ↔ ∃ children, disk.root.get? names = some (.directory children) := by
  rw [item?, Entry.item?, Option.map_eq_some_iff]
  constructor
  · rintro ⟨entry, found, is⟩
    obtain ⟨children, rfl⟩ := Entry.item_eq_directory_iff.mp is
    exact ⟨children, found⟩
  · rintro ⟨children, found⟩
    exact ⟨_, found, rfl⟩

theorem get?_eq_link_iff {disk : Disk} {names : List Text} {target : Text} :
    disk.root.get? names = some (.link target)
      ↔ disk.item? names = some (.link target) := by
  rw [item?, Entry.item?, Option.map_eq_some_iff]
  constructor
  · intro found
    exact ⟨_, found, rfl⟩
  · rintro ⟨entry, found, is⟩
    rwa [← Entry.item_eq_link_iff.mp is]

theorem get?_eq_none_iff {disk : Disk} {names : List Text} :
    disk.root.get? names = none ↔ disk.item? names = none := by
  rw [item?, Entry.item?, Option.map_eq_none_iff]

theorem item?_of_get? {disk : Disk} {names : List Text} {entry : Entry}
    (found : disk.root.get? names = some entry) :
    disk.item? names = some entry.item := by
  rw [item?, Entry.item?, found, Option.map_some]

/-- Setting an entry of a directory changes what is seen in its place only. -/
theorem item?_set {disk : Disk} {position : List Text} {name : Text}
    {new : Option Entry} (inside : disk.item? position = some .directory)
    (oldLeaf : disk.item? (position ++ [name]) ≠ some .directory)
    (newLeaf : new.map Entry.item ≠ some .directory) (names : List Text) :
    (disk.set (position ++ [name]) new).item? names
      = if names = position ++ [name] then new.map Entry.item
        else disk.item? names := by
  obtain ⟨children, found⟩ := item?_eq_directory_iff.mp inside
  exact Entry.item?_set found oldLeaf newLeaf names

end Disk

end Lineup
