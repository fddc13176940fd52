import Lineup.Proofs.Disk.Overwrite

/-!
# Rewriting many files

Files of a disk are overwritten one after the other, each with contents made from its
old ones. Paths may lead to the same file through links: each one reads as it should
once all are written.
-/

namespace Lineup

namespace Disk

variable {disk : Disk} {path : Text} {place : List Text} {data : Text} {mode : Nat}

/-- A path with its own place leads to a file with the given contents and access rights,
and no lock is beside it. -/
structure Source (disk : Disk) (path : Text) (place : List Text) (data : Text)
    (mode : Nat) :
    Prop where
  leads : ∃ target, disk.Leads true path target
    ∧ disk.item? target = some (.file data mode)
  sits : ∃ directory name, disk.Sits path directory name ∧ place = directory ++ [name]
    ∧ disk.item? (directory ++ [name ++ utf8 ".lock"]) = none

namespace Source

theorem stays (source : disk.Source path place data mode) :
    disk.Leads false path place := by
  obtain ⟨directory, name, sits, rfl, -⟩ := source.sits
  exact sits.leads

/-- At the place of a source there is its file, or a link to it. -/
theorem settles (source : disk.Source path place data mode) :
    disk.item? place = some (.file data mode)
      ∨ ∃ target, disk.LinksTo place target
      ∧ disk.item? target = some (.file data mode) := by
  obtain ⟨target, leads, seen⟩ := source.leads
  rcases source.stays.2.linksTo leads.2 with rfl | linked
  · exact .inl seen
  · exact .inr ⟨target, linked, seen⟩

theorem ne_none (source : disk.Source path place data mode) :
    disk.item? place ≠ none := by
  rcases source.settles with seen | ⟨target, ⟨link, links, seen, -⟩, -⟩
  · simp [seen]
  · simp [seen]

theorem isEnd (source : disk.Source path place data mode) : disk.IsEnd place := by
  rcases source.settles with seen | ⟨target, linked, seen⟩
  · exact .inr (.inl ⟨data, mode, seen⟩)
  · exact .inr (.inr ⟨target, linked, data, mode, seen⟩)

theorem seen_of_linksTo (source : disk.Source path place data mode) {target : List Text}
    (linked : disk.LinksTo place target) :
    disk.item? target = some (.file data mode) := by
  rcases source.settles with seen | ⟨other, also, seen⟩
  · obtain ⟨link, links, isLink, -⟩ := linked
    exact nomatch seen.symm.trans isLink
  · obtain rfl := also.unique linked (by simp [seen])
    exact seen

/-- What is read at a place does not depend on the path. -/
theorem unique {other old : Text} {rights : Nat}
    (source : disk.Source path place data mode)
    (also : disk.Source other place old rights) : old = data ∧ rights = mode := by
  rcases source.settles with seen | ⟨target, linked, seen⟩
  · rcases also.settles with again | ⟨target, ⟨link, links, isLink, -⟩, -⟩
    · cases seen.symm.trans again
      exact ⟨rfl, rfl⟩
    · exact nomatch seen.symm.trans isLink
  · cases seen.symm.trans (also.seen_of_linksTo linked)
    exact ⟨rfl, rfl⟩

end Source

/-- Some files of a disk have been overwritten, and nothing else has changed. -/
structure Rewritten (output : Text → Text) (before after : Disk) (paths : List Text) :
    Prop where
  cwd : after.cwd = before.cwd
  locked : after.locked = before.locked
  nextId : before.nextId ≤ after.nextId
  same : ∀ names, (∀ path ∈ paths, ∀ data mode, ¬ before.Source path names data mode) →
    after.item? names = before.item? names
  new : ∀ path ∈ paths, ∀ names data mode, before.Source path names data mode →
    after.item? names = some (.file (output data) (mode % 0o1000))

namespace Rewritten

variable {output : Text → Text} {before after : Disk} {paths : List Text}

theorem refl (disk : Disk) : Rewritten output disk disk [] :=
  ⟨rfl, rfl, Nat.le_refl _, fun _ _ => rfl, nofun⟩

/-- The places that have been written to were ends. -/
theorem patched (rewritten : Rewritten output before after paths) :
    Patched before after fun names =>
      ∃ path ∈ paths, ∃ data mode, before.Source path names data mode := by
  refine ⟨fun names unchanged => rewritten.same names ?_, ?_, ?_⟩
  · intro path member data mode source
    exact unchanged ⟨path, member, data, mode, source⟩
  · rintro names ⟨path, member, data, mode, source⟩
    exact ⟨_, _, rewritten.new path member names data mode source⟩
  · rintro names ⟨path, member, data, mode, source⟩
    exact source.isEnd

/-- What is seen where something was seen before: the same, or what was written
there. -/
theorem seen_of_file (rewritten : Rewritten output before after paths)
    {names : List Text} (seen : before.item? names = some (.file data mode)) :
    after.item? names = some (.file data mode)
      ∨ after.item? names = some (.file (output data) (mode % 0o1000)) := by
  by_cases written : ∃ path ∈ paths, ∃ data mode, before.Source path names data mode
  · obtain ⟨path, member, old, rights, source⟩ := written
    have new := rewritten.new path member names old rights source
    rcases source.settles with again | ⟨target, ⟨link, links, isLink, -⟩, -⟩
    · cases seen.symm.trans again
      exact .inr new
    · exact nomatch seen.symm.trans isLink
  · refine .inl ((rewritten.same names ?_).trans seen)
    intro path member data mode source
    exact written ⟨path, member, data, mode, source⟩

/-- A path that leads to a file leads to one with the same contents, or to what was
written. -/
theorem leads (rewritten : Rewritten output before after paths) {target : List Text}
    (leads : before.Leads true path target)
    (seen : before.item? target = some (.file data mode)) :
    ∃ stop, after.Leads true path stop ∧ (after.item? stop = some (.file data mode)
      ∨ after.item? stop = some (.file (output data) (mode % 0o1000))) := by
  obtain ⟨stop, reaches, related⟩ := rewritten.patched.reaches leads.2
  refine ⟨stop, ⟨leads.1, by rwa [rewritten.cwd]⟩, ?_⟩
  rcases related with rfl | ⟨-, ⟨other, member, old, rights, source⟩, linked⟩
  · exact rewritten.seen_of_file seen
  · cases seen.symm.trans (source.seen_of_linksTo linked)
    exact .inr (rewritten.new other member stop data mode source)

/-- A source stays where it is, with its lock free. -/
theorem sits (rewritten : Rewritten output before after paths)
    (source : before.Source path place data mode) :
    ∃ directory name, after.Sits path directory name ∧ place = directory ++ [name]
      ∧ after.item? (directory ++ [name ++ utf8 ".lock"]) = none := by
  obtain ⟨directory, name, sits, same, free⟩ := source.sits
  refine ⟨directory, name, sits.patched rewritten.patched, same, ?_⟩
  rw [rewritten.same, free]
  intro other member old rights source
  exact source.ne_none free

/-- A source stays one: it reads as before, or as what is made from that. -/
theorem source (rewritten : Rewritten output before after paths)
    (source : before.Source path place data mode) :
    ∃ now rights, after.Source path place now rights ∧ rights % 0o1000 = mode % 0o1000
      ∧ (now = data ∨ now = output data) := by
  obtain ⟨target, leads, seen⟩ := source.leads
  obtain ⟨stop, leads, same | new⟩ := rewritten.leads leads seen
  · exact ⟨data, mode, ⟨⟨stop, leads, same⟩, rewritten.sits source⟩, rfl, .inl rfl⟩
  · exact ⟨_, _, ⟨⟨stop, leads, new⟩, rewritten.sits source⟩, Nat.mod_mod mode _,
      .inr rfl⟩

/-- A source that was overwritten reads as what is made from its old contents. -/
theorem source_of_mem (rewritten : Rewritten output before after paths)
    (source : before.Source path place data mode) (member : path ∈ paths) :
    after.Source path place (output data) (mode % 0o1000) := by
  have new := rewritten.new path member place data mode source
  obtain ⟨directory, name, sits, rfl, free⟩ := rewritten.sits source
  refine ⟨⟨directory ++ [name], ⟨sits.leads.1, sits.leads.2.followed ?_⟩, new⟩,
    directory, name, sits, rfl, free⟩
  intro link isLink
  exact nomatch new.symm.trans isLink

/-- One more file is overwritten. -/
theorem step (rewritten : Rewritten output before after paths)
    (source : before.Source path place data mode)
    (fresh : ∀ id ∈ before.locked, id < before.nextId) :
    ∃ later, after.overwrite path (output data) = (later, .ok true)
      ∧ Rewritten output before later (paths ++ [path]) := by
  obtain ⟨now, rights, ⟨⟨target, leads, seen⟩, directory, name, sits, rfl, free⟩,
      kept, -⟩ :=
    rewritten.source source
  have unheld : after.nextId ∉ after.locked := by
    rw [rewritten.locked]
    intro member
    exact absurd (fresh _ member) (Nat.not_lt.mpr rewritten.nextId)
  obtain ⟨later, written, nextId, locked, puts⟩ :=
    overwrite_of_sits sits leads seen free unheld (output data)
  refine ⟨later, written, puts.cwd.trans rewritten.cwd, locked.trans rewritten.locked,
    Nat.le_trans rewritten.nextId nextId, fun names unchanged => ?_, ?_⟩
  · have other : names ≠ directory ++ [name] := by
      rintro rfl
      exact unchanged path (by simp) data mode source
    rw [puts.other other, rewritten.same names]
    intro path member
    exact unchanged path (List.mem_append_left _ member)
  · intro other member names old oldRights also
    by_cases here : names = directory ++ [name]
    · subst here
      obtain ⟨rfl, rfl⟩ := source.unique also
      rw [puts.self, kept]
    · rw [puts.other here]
      rcases List.mem_append.mp member with member | member
      · exact rewritten.new other member names old oldRights also
      · cases List.mem_singleton.mp member
        exact absurd (also.stays.unique source.stays) here

end Rewritten

end Disk

end Lineup
