import Lineup.Proofs.Disk.Views

/-!
# Ways along a disk

Where a path leads, told name by name. A way does not change when files or links that it
does not go through are replaced by other files: it can only end earlier, at such a
file.
-/

namespace Lineup

namespace Disk

/-- Neither of the two names that stand for directories. -/
def IsName (name : Text) : Prop :=
  name ≠ Path.here ∧ name ≠ Path.above

/-- The way along names from a position to its end, through fewer than the given number
of links. -/
inductive Reaches (disk : Disk) (follow : Bool) : Nat → List Text → List Text →
    List Text → Prop
  | arrive {links : Nat} {position : List Text} {item : Entry.Item}
      (seen : disk.item? position = some item) :
      Reaches disk follow (links + 1) position [] position
  | here {links : Nat} {position names target : List Text}
      (inside : disk.item? position = some .directory)
      (onward : Reaches disk follow links position names target) :
      Reaches disk follow links position (Path.here :: names) target
  | above {links : Nat} {position names target : List Text}
      (inside : disk.item? position = some .directory)
      (onward : Reaches disk follow links position.dropLast names target) :
      Reaches disk follow links position (Path.above :: names) target
  | free {links : Nat} {position : List Text} {name : Text}
      (inside : disk.item? position = some .directory) (proper : IsName name)
      (vacant : disk.item? (position ++ [name]) = none) :
      Reaches disk follow (links + 1) position [name] (position ++ [name])
  | stay {links : Nat} {position : List Text} {name link : Text}
      (inside : disk.item? position = some .directory) (proper : IsName name)
      (seen : disk.item? (position ++ [name]) = some (.link link))
        (stays : follow = false) :
      Reaches disk follow (links + 1) position [name] (position ++ [name])
  | turn {links : Nat} {position names target : List Text} {name link : Text}
      (inside : disk.item? position = some .directory) (proper : IsName name)
      (seen : disk.item? (position ++ [name]) = some (.link link))
      (turns : names = [] → follow = true)
      (onward : Reaches disk follow links (start position link)
        (route link ++ names) target) :
      Reaches disk follow (links + 1) position (name :: names) target
  | enter {links : Nat} {position names target : List Text} {name : Text}
        {item : Entry.Item}
      (inside : disk.item? position = some .directory) (proper : IsName name)
      (seen : disk.item? (position ++ [name]) = some item)
        (solid : ∀ link, item ≠ .link link)
      (onward : Reaches disk follow links (position ++ [name]) names target) :
      Reaches disk follow links position (name :: names) target

/-- The names of a place. -/
def Place.names : Place → List Text
  | present names _ => names
  | vacant directory name => directory ++ [name]

/-- The place is as the disk tells. -/
def Holds (disk : Disk) : Place → Prop
  | .present names entry => disk.root.get? names = some entry
  | .vacant directory name => disk.root.get? (directory ++ [name]) = none

variable {disk : Disk} {follow : Bool}

/-! ## Ways and their ends -/

theorem leg_here {position : List Text} {children : List (Text × Entry)}
    (found : disk.root.get? position = some (.directory children)) (names : List Text) :
    disk.leg follow position (Path.here :: names) = disk.leg follow position names := by
  rw [leg, found]
  rfl

theorem leg_above {position : List Text} {children : List (Text × Entry)}
    (found : disk.root.get? position = some (.directory children)) (names : List Text) :
    disk.leg follow position (Path.above :: names)
      = disk.leg follow position.dropLast names := by
  rw [leg, found]
  rfl

theorem leg_cons {position : List Text} {children : List (Text × Entry)} {name : Text}
    (found : disk.root.get? position = some (.directory children))
    (proper : IsName name) (names : List Text) :
    disk.leg follow position (name :: names)
      = match disk.root.get? (position ++ [name]) with
        | none =>
            if names.isEmpty then .ok (.arrived (.vacant position name))
            else .error .missing
        | some (.link target) =>
            if names.isEmpty && !follow then
              .ok (.arrived (.present (position ++ [name]) (.link target)))
            else .ok (.detour (start position target) (route target ++ names))
        | some _ => disk.leg follow (position ++ [name]) names := by
  rw [leg, found, Entry.get?_concat found]
  simp only [beq_eq_false_iff_ne.mpr proper.1, beq_eq_false_iff_ne.mpr proper.2]
  rfl

theorem leg_enter {position : List Text} {children : List (Text × Entry)} {name : Text}
    {item : Entry.Item} (found : disk.root.get? position = some (.directory children))
    (proper : IsName name) (seen : disk.item? (position ++ [name]) = some item)
    (solid : ∀ link, item ≠ .link link) (names : List Text) :
    disk.leg follow position (name :: names)
      = disk.leg follow (position ++ [name]) names := by
  rw [item?, Entry.item?, Option.map_eq_some_iff] at seen
  obtain ⟨entry, there, rfl⟩ := seen
  rw [leg_cons found proper, there]
  cases entry with
  | file found => rfl
  | directory children => rfl
  | link target => exact absurd rfl (solid target)

/-- What a leg stands for in a way. -/
def Leg.Goes (disk : Disk) (follow : Bool) (position names : List Text) : Leg → Prop
  | .arrived place =>
      disk.Holds place ∧ ∀ links,
        disk.Reaches follow (links + 1) position names place.names
  | .detour start later =>
      ∀ links target, disk.Reaches follow links start later target →
        disk.Reaches follow (links + 1) position names target

theorem Leg.Goes.extend {leg : Leg} {position names next later : List Text}
    (goes : leg.Goes disk follow next later)
    (onward : ∀ links target, disk.Reaches follow (links + 1) next later target →
      disk.Reaches follow (links + 1) position names target) :
    leg.Goes disk follow position names := by
  cases leg with
  | arrived place => exact ⟨goes.1, fun links => onward _ _ (goes.2 links)⟩
  | detour start rest =>
      exact fun links target reaches => onward _ _ (goes links target reaches)

/-- A leg is the first part of a way, up to its end or to the first link to follow. -/
theorem goes_of_leg {position names : List Text} {leg : Leg}
    (found : disk.leg follow position names = .ok leg) :
    leg.Goes disk follow position names := by
  induction names generalizing position with
  | nil =>
      rw [Disk.leg] at found
      cases there : disk.root.get? position with
      | none =>
          rw [there] at found
          cases found
      | some entry =>
          rw [there] at found
          cases found
          exact ⟨there, fun links => .arrive (item?_of_get? there)⟩
  | cons name names ih =>
      cases there : disk.root.get? position with
      | none =>
          rw [Disk.leg, there] at found
          cases found
      | some entry =>
          cases entry with
          | file _ =>
              rw [Disk.leg, there] at found
              cases found
          | link _ =>
              rw [Disk.leg, there] at found
              cases found
          | directory children =>
              have inside := item?_of_get? there
              by_cases same : name = Path.here
              · subst same
                rw [leg_here there] at found
                exact (ih found).extend fun _ _ reaches => .here inside reaches
              by_cases up : name = Path.above
              · subst up
                rw [leg_above there] at found
                exact (ih found).extend fun _ _ reaches => .above inside reaches
              have proper : IsName name := ⟨same, up⟩
              rw [leg_cons there proper] at found
              cases seen : disk.root.get? (position ++ [name]) with
              | none =>
                  rw [seen] at found
                  cases names with
                  | nil =>
                      cases found
                      exact ⟨seen, fun links =>
                        .free inside proper (by rw [item?, Entry.item?, seen]; rfl)⟩
                  | cons next names => cases found
              | some entry =>
                  have item := item?_of_get? seen
                  rw [seen] at found
                  cases entry with
                  | link target =>
                      simp only at found
                      split at found
                      · rename_i stays
                        rw [Bool.and_eq_true, List.isEmpty_iff] at stays
                        obtain ⟨rfl, stays⟩ := stays
                        cases found
                        exact ⟨seen, fun links =>
                          .stay inside proper item (by simpa using stays)⟩
                      · rename_i turns
                        cases found
                        intro links target reaches
                        refine .turn inside proper item (fun last => ?_) reaches
                        subst last
                        simpa using turns
                  | file _ =>
                      refine (ih found).extend fun _ _ reaches =>
                        .enter inside proper item ?_ reaches
                      intro _ same
                      cases same
                  | directory _ =>
                      refine (ih found).extend fun _ _ reaches =>
                        .enter inside proper item ?_ reaches
                      intro _ same
                      cases same

theorem reaches_of_walk {links : Nat} {position names : List Text} {place : Place}
    (found : disk.walk follow links position names = .ok place) :
    disk.Holds place ∧ disk.Reaches follow links position names place.names := by
  induction links generalizing position names with
  | zero => cases found
  | succ links ih =>
      rw [walk] at found
      cases first : disk.leg follow position names with
      | error fault =>
          rw [first] at found
          cases found
      | ok leg =>
          have goes := goes_of_leg first
          rw [first] at found
          cases leg with
          | arrived arrival =>
              cases found
              exact ⟨goes.1, goes.2 links⟩
          | detour start later => exact ⟨(ih found).1, goes _ _ (ih found).2⟩

theorem walk_congr {position names later next : List Text}
    (same : disk.leg follow position names = disk.leg follow next later) (links : Nat) :
    disk.walk follow links position names = disk.walk follow links next later := by
  cases links with
  | zero => rfl
  | succ links => rw [walk, walk, same]

/-- Every way is found. -/
theorem exists_walk_of_reaches {links : Nat} {position names target : List Text}
    (reaches : disk.Reaches follow links position names target) :
    ∃ place, disk.walk follow links position names = .ok place
      ∧ place.names = target := by
  induction reaches with
  | arrive seen =>
      rw [item?, Entry.item?, Option.map_eq_some_iff] at seen
      obtain ⟨entry, found, -⟩ := seen
      exact ⟨.present _ entry, by rw [walk, leg, found], rfl⟩
  | here inside onward ih =>
      obtain ⟨children, found⟩ := item?_eq_directory_iff.mp inside
      rwa [walk_congr (leg_here found _)]
  | above inside onward ih =>
      obtain ⟨children, found⟩ := item?_eq_directory_iff.mp inside
      rwa [walk_congr (leg_above found _)]
  | free inside proper absent =>
      obtain ⟨children, found⟩ := item?_eq_directory_iff.mp inside
      rw [walk, leg_cons found proper, get?_eq_none_iff.mpr absent]
      exact ⟨_, rfl, rfl⟩
  | stay inside proper seen stays =>
      obtain ⟨children, found⟩ := item?_eq_directory_iff.mp inside
      rw [walk, leg_cons found proper, get?_eq_link_iff.mpr seen, stays]
      exact ⟨_, rfl, rfl⟩
  | @turn links position names target name link inside proper seen turns onward ih =>
      obtain ⟨children, found⟩ := item?_eq_directory_iff.mp inside
      have goesOn : (names.isEmpty && !follow) = false := by
        cases names with
        | nil => rw [turns rfl]; rfl
        | cons next names => rfl
      rw [walk, leg_cons found proper, get?_eq_link_iff.mpr seen]
      simp only [goesOn]
      exact ih
  | enter inside proper seen solid onward ih =>
      obtain ⟨children, found⟩ := item?_eq_directory_iff.mp inside
      rwa [walk_congr (leg_enter found proper seen solid _)]

/-- A place is known by its names. -/
theorem Holds.ext {place other : Place} (holds : disk.Holds place)
    (also : disk.Holds other) (same : place.names = other.names) : place = other := by
  cases place with
  | present names entry =>
      cases other with
      | present otherNames otherEntry =>
          obtain rfl : names = otherNames := same
          exact congrArg _ (Option.some.inj (holds.symm.trans also))
      | vacant directory name =>
          obtain rfl : names = directory ++ [name] := same
          exact nomatch holds.symm.trans also
  | vacant directory name =>
      cases other with
      | present names entry =>
          obtain rfl : directory ++ [name] = names := same
          exact nomatch holds.symm.trans also
      | vacant otherDirectory otherName =>
          obtain ⟨rfl, last⟩ := List.append_inj' same rfl
          cases last
          rfl

/-- Walking finds the ways and their ends. -/
theorem walk_eq_ok_iff {links : Nat} {position names : List Text} {place : Place} :
    disk.walk follow links position names = .ok place
      ↔ disk.Holds place ∧ disk.Reaches follow links position names place.names := by
  constructor
  · exact reaches_of_walk
  · rintro ⟨holds, reaches⟩
    obtain ⟨other, found, names⟩ := exists_walk_of_reaches reaches
    rw [found, holds.ext (reaches_of_walk found).1 names.symm]

namespace Reaches

/-! ## What is known of the rest of a way -/

variable {links : Nat} {position names target : List Text} {name : Text}

theorem of_here
    (reaches : disk.Reaches follow links position (Path.here :: names) target) :
    disk.Reaches follow links position names target := by
  cases reaches with
  | here _ onward => exact onward
  | free _ proper _ => exact absurd rfl proper.1
  | stay _ proper _ _ => exact absurd rfl proper.1
  | turn _ proper _ _ _ => exact absurd rfl proper.1
  | enter _ proper _ _ _ => exact absurd rfl proper.1

theorem of_above
    (reaches : disk.Reaches follow links position (Path.above :: names) target) :
    disk.Reaches follow links position.dropLast names target := by
  cases reaches with
  | above _ onward => exact onward
  | free _ proper _ => exact absurd rfl proper.2
  | stay _ proper _ _ => exact absurd rfl proper.2
  | turn _ proper _ _ _ => exact absurd rfl proper.2
  | enter _ proper _ _ _ => exact absurd rfl proper.2

theorem of_free (proper : IsName name) (vacant : disk.item? (position ++ [name]) = none)
    (reaches : disk.Reaches follow links position (name :: names) target) :
    target = position ++ [name] := by
  cases reaches with
  | here _ _ => exact absurd rfl proper.1
  | above _ _ => exact absurd rfl proper.2
  | free _ _ _ => rfl
  | stay _ _ seen _ => exact nomatch vacant.symm.trans seen
  | turn _ _ seen _ _ => exact nomatch vacant.symm.trans seen
  | enter _ _ seen _ _ => exact nomatch vacant.symm.trans seen

theorem of_link {link : Text} (proper : IsName name)
    (seen : disk.item? (position ++ [name]) = some (.link link))
    (turns : names = [] → follow = true)
    (reaches : disk.Reaches follow links position (name :: names) target) :
    ∃ links, disk.Reaches follow links (start position link)
      (route link ++ names) target := by
  cases reaches with
  | here _ _ => exact absurd rfl proper.1
  | above _ _ => exact absurd rfl proper.2
  | free _ _ absent => exact nomatch absent.symm.trans seen
  | stay _ _ _ stays => exact nomatch stays.symm.trans (turns rfl)
  | turn _ _ other _ onward =>
      cases Option.some.inj (seen.symm.trans other)
      exact ⟨_, onward⟩
  | enter _ _ other solid _ =>
      exact absurd (Option.some.inj (other.symm.trans seen)) (solid link)

theorem of_solid {item : Entry.Item} (proper : IsName name)
    (seen : disk.item? (position ++ [name]) = some item)
    (solid : ∀ link, item ≠ .link link)
    (reaches : disk.Reaches follow links position (name :: names) target) :
    disk.Reaches follow links (position ++ [name]) names target := by
  cases reaches with
  | here _ _ => exact absurd rfl proper.1
  | above _ _ => exact absurd rfl proper.2
  | free _ _ absent => exact nomatch absent.symm.trans seen
  | stay _ _ other _ => exact absurd (Option.some.inj (seen.symm.trans other)) (solid _)
  | turn _ _ other _ _ =>
      exact absurd (Option.some.inj (seen.symm.trans other)) (solid _)
  | enter _ _ _ _ onward => exact onward

/-- Only a directory can be gone through. -/
theorem inside (reaches : disk.Reaches follow links position (name :: names) target) :
    disk.item? position = some .directory := by
  cases reaches <;> assumption

/-- A way that starts like another one goes on from the end of that one. -/
theorem append {others : Nat} {first middle rest : List Text}
    (reaches : disk.Reaches true links position first middle)
    (there : disk.item? middle ≠ none) (followed : rest = [] → follow = true)
    (onward : disk.Reaches follow others position (first ++ rest) target) :
    ∃ links, disk.Reaches follow links middle rest target := by
  induction reaches generalizing others with
  | arrive seen => exact ⟨others, onward⟩
  | here _ _ ih => exact ih there onward.of_here
  | above _ _ ih => exact ih there onward.of_above
  | free _ _ absent => exact absurd absent there
  | stay _ _ _ stays => cases stays
  | turn _ proper seen _ _ ih =>
      obtain ⟨later, onward⟩ := onward.of_link proper seen
        fun ends => followed (List.append_eq_nil_iff.mp ends).2
      rw [← List.append_assoc] at onward
      exact ih there onward
  | enter _ proper seen solid _ ih => exact ih there (onward.of_solid proper seen solid)

/-- A name inside of the directory at the end of a way. -/
theorem child (reaches : disk.Reaches true links position names target)
    (inside : disk.item? target = some .directory) (proper : IsName name) :
    disk.Reaches false links position (names ++ [name]) (target ++ [name]) := by
  induction reaches with
  | @arrive links position item seen =>
      cases found : disk.item? (position ++ [name]) with
      | none => exact .free inside proper found
      | some item =>
          cases item with
          | file data mode => exact .enter inside proper found nofun (.arrive found)
          | directory => exact .enter inside proper found nofun (.arrive found)
          | link link => exact .stay inside proper found rfl
  | here within _ ih => exact .here within (ih inside)
  | above within _ ih => exact .above within (ih inside)
  | free _ _ absent => exact nomatch absent.symm.trans inside
  | stay _ _ _ stays => cases stays
  | turn within first seen _ _ ih =>
      rw [List.append_assoc] at ih
      exact .turn within first seen (by simp) (ih inside)
  | enter within first seen solid _ ih =>
      exact .enter within first seen solid (ih inside)

/-- A way that follows links to the last ends at a link if that one is not followed, or
where it ends anyway. -/
theorem unfollowed (reaches : disk.Reaches true links position names target)
    (there : disk.item? target ≠ none) :
    ∃ place, disk.Reaches false links position names place
      ∧ (place = target ∨ ∃ link, disk.item? place = some (.link link)) := by
  induction reaches with
  | arrive seen => exact ⟨_, .arrive seen, .inl rfl⟩
  | here within _ ih =>
      obtain ⟨place, reaches, is⟩ := ih there
      exact ⟨place, .here within reaches, is⟩
  | above within _ ih =>
      obtain ⟨place, reaches, is⟩ := ih there
      exact ⟨place, .above within reaches, is⟩
  | free _ _ vacant => exact absurd vacant there
  | stay _ _ _ stays => cases stays
  | @turn _ _ names _ _ _ within proper seen _ _ ih =>
      by_cases last : names = []
      · subst last
        exact ⟨_, .stay within proper seen rfl, .inr ⟨_, seen⟩⟩
      · obtain ⟨place, reaches, is⟩ := ih there
        exact ⟨place, .turn within proper seen (fun vacant => absurd vacant last)
          reaches, is⟩
  | enter within proper seen solid _ ih =>
      obtain ⟨place, reaches, is⟩ := ih there
      exact ⟨place, .enter within proper seen solid reaches, is⟩

/-- A way along a name leads to a directory first. -/
theorem parent (reaches : disk.Reaches follow links position (names ++ [name]) target)
    (proper : IsName name) :
    ∃ directory, disk.Reaches true links position names directory
      ∧ disk.item? directory = some .directory := by
  generalize whole : names ++ [name] = all at reaches
  induction reaches generalizing names with
  | arrive seen => simp at whole
  | here within _ ih =>
      cases names with
      | nil =>
          cases whole
          exact absurd rfl proper.1
      | cons first names =>
          obtain ⟨rfl, rest⟩ := List.cons.inj whole
          obtain ⟨directory, reaches, inside⟩ := ih rest
          exact ⟨directory, .here within reaches, inside⟩
  | above within _ ih =>
      cases names with
      | nil =>
          cases whole
          exact absurd rfl proper.2
      | cons first names =>
          obtain ⟨rfl, rest⟩ := List.cons.inj whole
          obtain ⟨directory, reaches, inside⟩ := ih rest
          exact ⟨directory, .above within reaches, inside⟩
  | free within _ _ =>
      cases names with
      | nil => exact ⟨_, .arrive within, within⟩
      | cons first names => simp at whole
  | stay within _ _ _ =>
      cases names with
      | nil => exact ⟨_, .arrive within, within⟩
      | cons first names => simp at whole
  | turn within first seen _ _ ih =>
      cases names with
      | nil => exact ⟨_, .arrive within, within⟩
      | cons other names =>
          obtain ⟨rfl, rfl⟩ := List.cons.inj whole
          obtain ⟨directory, reaches, inside⟩ := ih (List.append_assoc ..)
          exact ⟨directory, .turn within first seen (fun _ => rfl) reaches, inside⟩
  | enter within first seen solid onward ih =>
      cases names with
      | nil =>
          cases whole
          cases onward
          exact ⟨_, .arrive within, within⟩
      | cons other names =>
          obtain ⟨rfl, rest⟩ := List.cons.inj whole
          obtain ⟨directory, reaches, inside⟩ := ih rest
          exact ⟨directory, .enter within first seen solid reaches, inside⟩

/-- A way that does not end at a link is the same when links are followed. -/
theorem followed (reaches : disk.Reaches false links position names target)
    (solid : ∀ link, disk.item? target ≠ some (.link link)) :
    disk.Reaches true links position names target := by
  induction reaches with
  | arrive seen => exact .arrive seen
  | here inside _ ih => exact .here inside (ih solid)
  | above inside _ ih => exact .above inside (ih solid)
  | free inside proper absent => exact .free inside proper absent
  | stay _ _ seen _ => exact absurd seen (solid _)
  | turn inside proper seen _ _ ih =>
      exact .turn inside proper seen (fun _ => rfl) (ih solid)
  | enter inside proper seen free _ ih =>
      exact .enter inside proper seen free (ih solid)

end Reaches

/-! ## Links -/

/-- There is a link at the given names, and it leads to a target. -/
def LinksTo (disk : Disk) (names target : List Text) : Prop :=
  ∃ link links, disk.item? names = some (.link link)
    ∧ disk.Reaches true links (start names.dropLast link) (route link) target

/-- There is a file at the given names. -/
def IsFile (disk : Disk) (names : List Text) : Prop :=
  ∃ data mode, disk.item? names = some (.file data mode)

theorem IsFile.ne_directory {names : List Text} (file : disk.IsFile names) :
    disk.item? names ≠ some .directory := by
  obtain ⟨data, mode, seen⟩ := file
  rw [seen]
  simp

theorem LinksTo.unique {names target other : List Text}
    (leads : disk.LinksTo names target) (also : disk.LinksTo names other)
    (there : disk.item? target ≠ none) : other = target := by
  obtain ⟨link, links, seen, reaches⟩ := leads
  obtain ⟨_, others, again, onward⟩ := also
  cases Option.some.inj (seen.symm.trans again)
  obtain ⟨later, ends⟩ := reaches.append there (fun _ => rfl)
    (show disk.Reaches true others _ (route link ++ []) other by rwa [List.append_nil])
  cases ends
  rfl

/-- Following links at the end of a way goes on from that end. -/
theorem Reaches.linksTo {links others : Nat} {position names target other : List Text}
    (reaches : disk.Reaches false links position names target)
    (followed : disk.Reaches true others position names other) :
    other = target ∨ disk.LinksTo target other := by
  induction reaches generalizing others with
  | arrive seen =>
      cases followed
      exact .inl rfl
  | here _ _ ih => exact ih followed.of_here
  | above _ _ ih => exact ih followed.of_above
  | free _ proper absent => exact .inl (followed.of_free proper absent)
  | stay _ proper seen _ =>
      obtain ⟨later, onward⟩ := followed.of_link proper seen fun _ => rfl
      rw [List.append_nil] at onward
      exact .inr ⟨_, later, seen, by rwa [List.dropLast_concat]⟩
  | turn _ proper seen _ _ ih =>
      obtain ⟨later, onward⟩ := followed.of_link proper seen fun _ => rfl
      exact ih onward
  | enter _ proper seen solid _ ih => exact ih (followed.of_solid proper seen solid)

/-! ## Ways across a change -/

/-- No way goes on from what is at the given names, if there is anything. -/
def IsEnd (disk : Disk) (names : List Text) : Prop :=
  disk.item? names = none ∨ disk.IsFile names
    ∨ ∃ target, disk.LinksTo names target ∧ disk.IsFile target

theorem IsEnd.ne_directory {names : List Text} (isEnd : disk.IsEnd names) :
    disk.item? names ≠ some .directory := by
  intro inside
  rcases isEnd with vacant | file | ⟨target, ⟨link, links, seen, -⟩, -⟩
  · exact nomatch vacant.symm.trans inside
  · exact file.ne_directory inside
  · exact nomatch seen.symm.trans inside

/-- A link that is an end leads to the last name of a way. -/
theorem IsEnd.last {links : Nat} {names later target : List Text} {link : Text}
    (isEnd : disk.IsEnd names) (seen : disk.item? names = some (.link link))
    (onward : disk.Reaches follow links (start names.dropLast link)
      (route link ++ later) target) :
    later = [] := by
  rcases isEnd with vacant | ⟨data, mode, file⟩ | ⟨stop,
    ⟨_, others, again, reaches⟩, file⟩
  · exact nomatch vacant.symm.trans seen
  · exact nomatch file.symm.trans seen
  · cases Option.some.inj (seen.symm.trans again)
    have there : disk.item? stop ≠ none := by
      obtain ⟨data, mode, file⟩ := file
      simp [file]
    cases later with
    | nil => rfl
    | cons name names =>
        obtain ⟨_, rest⟩ :=
          reaches.append there
            (fun ends => absurd ends (List.cons_ne_nil name names)) onward
        exact absurd rest.inside file.ne_directory

/-- A disk before and after some of the ends of its ways have been replaced by files. -/
structure Patched (before after : Disk) (changed : List Text → Prop) : Prop where
  same : ∀ names, ¬ changed names → after.item? names = before.item? names
  isFile : ∀ names, changed names → after.IsFile names
  isEnd : ∀ names, changed names → before.IsEnd names

namespace Patched

variable {before after : Disk} {changed : List Text → Prop}

/-- A directory is not replaced. -/
theorem directory (patched : Patched before after changed) {names : List Text}
    (inside : before.item? names = some .directory) :
    after.item? names = some .directory := by
  rw [patched.same names, inside]
  intro replaced
  exact (patched.isEnd names replaced).ne_directory inside

/-- A name that is a file after the change ends the way there. -/
theorem ends (patched : Patched before after changed) {links : Nat}
    {position : List Text} {name : Text}
    (inside : before.item? position = some .directory) (proper : IsName name)
    (replaced : changed (position ++ [name])) :
    after.Reaches follow (links + 1) position [name] (position ++ [name]) := by
  obtain ⟨data, mode, file⟩ := patched.isFile _ replaced
  exact .enter (patched.directory inside) proper file nofun (.arrive file)

/-- A way stays the same, or ends earlier at a link that has become a file. -/
theorem reaches (patched : Patched before after changed) {links : Nat}
    {position names target : List Text}
    (reaches : before.Reaches follow links position names target) :
    ∃ stop, after.Reaches follow links position names stop
      ∧ (stop = target ∨ follow = true ∧ changed stop
        ∧ before.LinksTo stop target) := by
  induction reaches with
  | @arrive links position item seen =>
      refine ⟨position, ?_, .inl rfl⟩
      by_cases replaced : changed position
      · obtain ⟨data, mode, file⟩ := patched.isFile _ replaced
        exact .arrive file
      · exact .arrive ((patched.same _ replaced).trans seen)
  | here inside _ ih =>
      obtain ⟨stop, onward, related⟩ := ih
      exact ⟨stop, .here (patched.directory inside) onward, related⟩
  | above inside _ ih =>
      obtain ⟨stop, onward, related⟩ := ih
      exact ⟨stop, .above (patched.directory inside) onward, related⟩
  | @free links position name inside proper absent =>
      refine ⟨position ++ [name], ?_, .inl rfl⟩
      by_cases replaced : changed (position ++ [name])
      · exact patched.ends inside proper replaced
      · exact .free (patched.directory inside) proper
          ((patched.same _ replaced).trans absent)
  | @stay links position name link inside proper seen stays =>
      refine ⟨position ++ [name], ?_, .inl rfl⟩
      by_cases replaced : changed (position ++ [name])
      · exact patched.ends inside proper replaced
      · exact .stay (patched.directory inside) proper
          ((patched.same _ replaced).trans seen) stays
  | @turn links position names target name link inside proper seen turns onward ih =>
      by_cases replaced : changed (position ++ [name])
      · -- The link was the last thing on the way, and is a file now.
        have holder : (position ++ [name]).dropLast = position := List.dropLast_concat
        rw [← holder] at onward
        obtain rfl := (patched.isEnd _ replaced).last seen onward
        rw [List.append_nil] at onward
        cases turns rfl
        exact ⟨position ++ [name], patched.ends inside proper replaced,
          .inr ⟨rfl, replaced, link, links, seen, onward⟩⟩
      · obtain ⟨stop, onward, related⟩ := ih
        exact ⟨stop, .turn (patched.directory inside) proper
          ((patched.same _ replaced).trans seen) turns onward, related⟩
  | @enter links position names target name item inside proper seen solid onward ih =>
      by_cases replaced : changed (position ++ [name])
      · cases names with
        | nil =>
            cases onward
            exact ⟨_, patched.ends inside proper replaced, .inl rfl⟩
        | cons next names =>
            exact absurd onward.inside (patched.isEnd _ replaced).ne_directory
      · obtain ⟨stop, onward, related⟩ := ih
        exact ⟨stop, .enter (patched.directory inside) proper
          ((patched.same _ replaced).trans seen) solid onward, related⟩

/-- A way that ends at no file stays the same. -/
theorem reaches_of_not_file (patched : Patched before after changed) {links : Nat}
    {position names target : List Text}
    (reaches : before.Reaches follow links position names target)
    (seen : before.item? target ≠ none) (other : ¬ before.IsFile target) :
    after.Reaches follow links position names target := by
  obtain ⟨stop, onward, rfl | ⟨-, replaced, leads⟩⟩ := patched.reaches reaches
  · exact onward
  · rcases patched.isEnd stop
      replaced with vacant | ⟨data, mode, file⟩ | ⟨file, also, isFile⟩
    · obtain ⟨link, links, link, -⟩ := leads
      exact nomatch vacant.symm.trans link
    · obtain ⟨link, links, link, -⟩ := leads
      exact nomatch file.symm.trans link
    · obtain rfl := leads.unique also seen
      exact absurd isFile other

end Patched

end Disk

end Lineup
