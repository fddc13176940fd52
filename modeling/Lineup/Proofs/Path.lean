import Lineup.Path

/-!
# Clean paths

A path is cleaned to the segments that its pieces leave: names, and in front of them,
unless it starts at the root, steps to directories above. The paths that start at the
root and hold nothing to be cleaned are the ones spelled from names alone. The names of
the directory of such a path, of the files beside it and of the files below it can be
read off its segments.
-/

namespace Lineup

namespace Text

theorem not_mem_of_mem_splitOn {separator : UInt8} {text piece : Text}
    (member : piece ∈ splitOn separator text) : separator ∉ piece := by
  induction text generalizing piece with
  | nil =>
      cases List.mem_singleton.mp member
      exact List.not_mem_nil
  | cons byte rest ih =>
      rw [splitOn] at member
      by_cases same : byte = separator
      · rw [if_pos (beq_iff_eq.mpr same), List.mem_cons] at member
        rcases member with rfl | member
        · exact List.not_mem_nil
        · exact ih member
      · rw [if_neg (mt beq_iff_eq.mp same)] at member
        cases pieces : splitOn separator rest with
        | nil =>
            rw [pieces, List.mem_singleton] at member
            subst member
            simpa using Ne.symm same
        | cons first later =>
            rw [pieces] at ih member
            rcases List.mem_cons.mp member with rfl | member
            · have first := ih List.mem_cons_self
              simpa [first] using Ne.symm same
            · exact ih (List.mem_cons_of_mem _ member)

theorem length_le_of_mem_splitOn {separator : UInt8} {text piece : Text}
    (member : piece ∈ splitOn separator text) : piece.length ≤ text.length := by
  induction text generalizing piece with
  | nil =>
      cases List.mem_singleton.mp member
      exact Nat.le_refl 0
  | cons byte rest ih =>
      rw [splitOn] at member
      rw [List.length_cons]
      split at member
      · rcases List.mem_cons.mp member with rfl | later
        · exact Nat.zero_le _
        · exact Nat.le_succ_of_le (ih later)
      · cases pieces : splitOn separator rest with
        | nil =>
            rw [pieces, List.mem_singleton] at member
            subst member
            exact Nat.succ_le_succ (Nat.zero_le _)
        | cons first others =>
            rw [pieces] at ih member
            rcases List.mem_cons.mp member with rfl | later
            · exact Nat.succ_le_succ (ih List.mem_cons_self)
            · exact Nat.le_succ_of_le (ih (List.mem_cons_of_mem first later))

theorem splitOn_ne_nil (separator : UInt8) (text : Text) :
    splitOn separator text ≠ [] := by
  cases text with
  | nil => exact List.cons_ne_nil _ _
  | cons byte rest =>
      rw [splitOn]
      split
      · exact List.cons_ne_nil _ _
      · split
        · exact List.cons_ne_nil _ _
        · exact List.cons_ne_nil _ _

/-- Texts with a separator between them are split one by one. -/
theorem splitOn_append (separator : UInt8) (text rest : Text) :
    splitOn separator (text ++ separator :: rest)
      = splitOn separator text ++ splitOn separator rest := by
  induction text with
  | nil => simp [splitOn]
  | cons byte text ih =>
      rw [List.cons_append, splitOn, splitOn, ih]
      cases pieces : splitOn separator text with
      | nil => exact absurd pieces (splitOn_ne_nil separator text)
      | cons piece pieces =>
          split
          · rfl
          · rfl

theorem splitOn_of_not_mem {separator : UInt8} {piece : Text}
    (whole : separator ∉ piece) :
    splitOn separator piece = [piece] := by
  induction piece with
  | nil => rfl
  | cons byte piece ih =>
      rw [List.mem_cons, not_or] at whole
      rw [splitOn, if_neg (mt beq_iff_eq.mp (Ne.symm whole.1)), ih whole.2]

theorem join_cons_cons (separator piece next : Text) (pieces : List Text) :
    join separator (piece :: next :: pieces)
      = piece ++ separator ++ join separator (next :: pieces) := rfl

theorem join_concat (separator : Text) {pieces : List Text} (present : pieces ≠ [])
    (last : Text) :
    join separator (pieces ++ [last]) = join separator pieces ++ separator ++ last := by
  induction pieces with
  | nil => exact absurd rfl present
  | cons piece pieces ih =>
      cases pieces with
      | nil => rfl
      | cons next pieces =>
          have later := ih (List.cons_ne_nil next pieces)
          rw [List.cons_append] at later
          rw [List.cons_append, List.cons_append, join_cons_cons, later, join_cons_cons]
          simp only [List.append_assoc]

theorem splitOn_join {separator : UInt8} {pieces : List Text} (present : pieces ≠ [])
    (whole : ∀ piece ∈ pieces, separator ∉ piece) :
    splitOn separator (join [separator] pieces) = pieces := by
  induction pieces with
  | nil => exact absurd rfl present
  | cons piece pieces ih =>
      rw [List.forall_mem_cons] at whole
      cases pieces with
      | nil => exact splitOn_of_not_mem whole.1
      | cons next pieces =>
          rw [join_cons_cons, List.append_assoc, List.singleton_append, splitOn_append,
            splitOn_of_not_mem whole.1, ih (List.cons_ne_nil next pieces) whole.2]
          rfl

end Text

namespace Path

/-- A name that a path can hold between slashes and that is not cleaned away. -/
structure IsSegment (segment : Text) : Prop where
  nonempty : segment ≠ []
  whole : Byte.slash ∉ segment
  ne_here : segment ≠ here
  ne_above : segment ≠ above

instance (segment : Text) : Decidable (IsSegment segment) :=
  decidable_of_iff (segment ≠ [] ∧ Byte.slash ∉ segment ∧ segment ≠ here
    ∧ segment ≠ above)
    ⟨fun ⟨nonempty, whole, other, also⟩ => ⟨nonempty, whole, other, also⟩,
      fun proper => ⟨proper.nonempty, proper.whole, proper.ne_here, proper.ne_above⟩⟩

section Cleaning

variable {isRooted : Bool} {read : List Text} {piece : Text}

@[simp]
theorem push_nil (isRooted : Bool) (read : List Text) :
    push isRooted read [] = read := rfl

theorem push_cases (piece : Text) : (∀ isRooted read, push isRooted read piece = read)
    ∨ piece = above ∨ piece ≠ [] ∧ piece ≠ here ∧ piece ≠ above := by
  by_cases empty : piece = []
  · exact .inl fun isRooted read => by rw [empty, push_nil]
  by_cases same : piece = here
  · exact .inl fun isRooted read => by rw [same]; rfl
  by_cases up : piece = above
  · exact .inr (.inl up)
  · exact .inr (.inr ⟨empty, same, up⟩)

theorem push_name (isRooted : Bool) (read : List Text) (present : piece ≠ [])
    (other : piece ≠ here) (also : piece ≠ above) :
    push isRooted read piece = piece :: read := by
  simp [push, present, other, also]

theorem push_segment (isRooted : Bool) (read : List Text) (proper : IsSegment piece) :
    push isRooted read piece = piece :: read :=
  push_name isRooted read proper.nonempty proper.ne_here proper.ne_above

theorem push_above (isRooted : Bool) (read : List Text) (proper : IsSegment piece) :
    push isRooted (piece :: read) above = read := by
  have other : (piece == above) = false := beq_eq_false_iff_ne.mpr proper.ne_above
  change (if piece == above then above :: piece :: read else read) = read
  rw [other]
  rfl

/-- The segments of a cleaned path, last one first: names, and in front of them, if the
path does not start at the root, the steps to directories above. -/
inductive Settled (isRooted : Bool) : List Text → Prop
  | nil : Settled isRooted []
  | name {segment : Text} {read : List Text} (proper : IsSegment segment)
      (settled : Settled isRooted read) : Settled isRooted (segment :: read)
  | above {read : List Text} (relative : isRooted = false)
        (steps : ∀ step ∈ read, step = Path.above)
      (settled : Settled isRooted read) : Settled isRooted (Path.above :: read)

theorem Settled.push (settled : Settled isRooted read) (whole : Byte.slash ∉ piece) :
    Settled isRooted (push isRooted read piece) := by
  rcases push_cases piece with dropped | rfl | ⟨present, other, also⟩
  · rw [dropped]
    exact settled
  · cases settled with
    | nil =>
        cases isRooted with
        | true => exact .nil
        | false => exact .above rfl (by simp) .nil
    | name proper settled =>
        rw [push_above isRooted _ proper]
        exact settled
    | above relative steps settled =>
        exact .above relative (List.forall_mem_cons.mpr ⟨rfl, steps⟩)
          (.above relative steps settled)
  · rw [push_name isRooted read present other also]
    exact .name ⟨present, whole, other, also⟩ settled

theorem Settled.foldl {pieces : List Text} (settled : Settled isRooted read)
    (whole : ∀ piece ∈ pieces, Byte.slash ∉ piece) :
    Settled isRooted (pieces.foldl (Path.push isRooted) read) := by
  induction pieces generalizing read with
  | nil => exact settled
  | cons piece pieces ih =>
      rw [List.forall_mem_cons] at whole
      exact ih (settled.push whole.1) whole.2

theorem settled_segments (path : Text) :
    Settled (isAbsolute path) (segments path).reverse := by
  rw [segments, List.reverse_reverse]
  exact Settled.nil.foldl fun piece => Text.not_mem_of_mem_splitOn

/-- Segments of a cleaned path hold no slash, and none is empty. -/
theorem Settled.whole (settled : Settled isRooted read) :
    ∀ segment ∈ read, Byte.slash ∉ segment ∧ segment ≠ [] := by
  induction settled with
  | nil => simp
  | name proper _ ih =>
      exact List.forall_mem_cons.mpr ⟨⟨proper.whole, proper.nonempty⟩, ih⟩
  | above _ _ _ ih => exact List.forall_mem_cons.mpr ⟨by decide, ih⟩

theorem whole_segments (path : Text) :
    ∀ segment ∈ segments path, Byte.slash ∉ segment ∧ segment ≠ [] := by
  intro segment member
  exact (settled_segments path).whole segment (List.mem_reverse.mpr member)

/-- Segments of a cleaned path are not cleaned away. -/
theorem Settled.foldl_reverse (settled : Settled isRooted read) :
    read.reverse.foldl (Path.push isRooted) [] = read := by
  induction settled with
  | nil => rfl
  | @name segment read proper _ ih =>
      rw [List.reverse_cons, List.foldl_append, ih]
      exact push_segment isRooted read proper
  | @above read relative steps _ ih =>
      rw [List.reverse_cons, List.foldl_append, ih, relative]
      cases read with
      | nil => rfl
      | cons last earlier =>
          rw [steps last List.mem_cons_self]
          rfl

/-- A path is cleaned the same behind a directory as on its own: what a step takes away,
it takes away in both cases. -/
theorem Settled.foldl_push {base : List Text} (settled : Settled false read) :
    (Path.push false read piece).reverse.foldl (Path.push true) base
      = Path.push true (read.reverse.foldl (Path.push true) base) piece := by
  have kept (piece : Text) : (piece :: read).reverse.foldl (Path.push true) base
      = Path.push true (read.reverse.foldl (Path.push true) base) piece := by
    rw [List.reverse_cons, List.foldl_append]
    rfl
  rcases push_cases piece with dropped | rfl | ⟨present, other, also⟩
  · rw [dropped, dropped]
  · cases settled with
    | nil => rfl
    | @name last earlier proper _ =>
        rw [push_above false earlier proper, List.reverse_cons, List.foldl_append,
          List.foldl_cons, List.foldl_nil, push_segment true _ proper,
          push_above true _ proper]
    | above _ _ _ => exact kept Path.above
  · rw [push_name false read present other also]
    exact kept piece

theorem foldl_push_segments {path : Text} (relative : isAbsolute path = false)
    (base : List Text) :
    (segments path).foldl (push true) base = (pieces path).foldl (push true) base := by
  have each (read pieces : List Text) (settled : Settled false read)
      (whole : ∀ piece ∈ pieces, Byte.slash ∉ piece) :
      (pieces.foldl (push false) read).reverse.foldl (push true) base
        = pieces.foldl (push true) (read.reverse.foldl (push true) base) := by
    induction pieces generalizing read with
    | nil => rfl
    | cons piece pieces ih =>
        rw [List.forall_mem_cons] at whole
        rw [List.foldl_cons, ih _ (settled.push whole.1) whole.2, settled.foldl_push]
        rfl
  rw [segments, relative]
  exact each [] (pieces path) .nil fun piece => Text.not_mem_of_mem_splitOn

theorem Settled.isSegment (settled : Settled true read) :
    ∀ segment ∈ read, IsSegment segment := by
  induction settled with
  | nil => simp
  | name proper _ ih => exact List.forall_mem_cons.mpr ⟨proper, ih⟩
  | above relative _ _ _ => cases relative

end Cleaning

/-- A path from the root with nothing to be cleaned. -/
def IsClean (path : Text) : Prop :=
  ∃ segments, (∀ segment ∈ segments, IsSegment segment)
    ∧ path = ofSegments true segments

theorem isSegment_of_mem_segments {path segment : Text}
    (rooted : isAbsolute path = true) (member : segment ∈ segments path) :
    IsSegment segment := by
  have settled := settled_segments path
  rw [rooted] at settled
  exact settled.isSegment segment (List.mem_reverse.mpr member)

/-- Cleaning a path from the root leaves nothing to be cleaned. -/
theorem isClean_clean {path : Text} (rooted : isAbsolute path = true) :
    IsClean (clean path) :=
  ⟨segments path, fun _ => isSegment_of_mem_segments rooted, by rw [clean, rooted]⟩

theorem isAbsolute_append {path : Text} (rooted : isAbsolute path = true)
    (rest : Text) :
    isAbsolute (path ++ rest) = true := by
  cases path with
  | nil => cases rooted
  | cons byte path => exact rooted

theorem isAbsolute_ofSegments (segments : List Text) :
    isAbsolute (ofSegments true segments) = true := rfl

theorem IsClean.isAbsolute {path : Text} (isClean : IsClean path) :
    Path.isAbsolute path = true := by
  obtain ⟨segments, -, rfl⟩ := isClean
  rfl

theorem isClean_join {directory : Text} (rooted : isAbsolute directory = true)
    (name : Text) :
    IsClean (join directory name) := by
  have present : directory.isEmpty = false := by
    cases directory with
    | nil => cases rooted
    | cons byte directory => rfl
  rw [join, present]
  exact isClean_clean (isAbsolute_append (isAbsolute_append rooted _) name)

theorem isClean_absolute {cwd : Text} (rooted : isAbsolute cwd = true) (path : Text) :
    IsClean (absolute cwd path) := by
  rw [absolute]
  split
  · rename_i from_root
    exact isClean_clean from_root
  · exact isClean_join rooted path

section Segments

variable {segments : List Text} {last : Text}

theorem foldl_push {read : List Text}
    (proper : ∀ segment ∈ segments, IsSegment segment) :
    segments.foldl (push true) read = segments.reverse ++ read := by
  induction segments generalizing read with
  | nil => rfl
  | cons segment segments ih =>
      rw [List.forall_mem_cons] at proper
      rw [List.foldl_cons, push_segment true read proper.1, ih proper.2,
        List.reverse_cons, List.append_assoc, List.singleton_append]

/-- Between the slashes of a path are its segments. -/
theorem pieces_ofSegments (isRooted : Bool) (present : segments ≠ [])
    (whole : ∀ segment ∈ segments, Byte.slash ∉ segment) :
    pieces (ofSegments isRooted segments)
      = if isRooted then [] :: segments else segments := by
  have joined : pieces (Text.join [Byte.slash] segments) = segments :=
    Text.splitOn_join present whole
  rw [ofSegments]
  cases isRooted with
  | true =>
      exact (Text.splitOn_append Byte.slash [] _).trans (congrArg ([] :: ·) joined)
  | false =>
      rw [if_neg Bool.false_ne_true, if_neg (mt List.isEmpty_iff.mp present)]
      exact joined

/-- What a path starts with before its last segment. -/
def lead (segments : List Text) : Text :=
  if segments.isEmpty then [Byte.slash] else ofSegments true segments ++ [Byte.slash]

theorem ofSegments_concat (segments : List Text) (last : Text) :
    ofSegments true (segments ++ [last]) = lead segments ++ last := by
  cases segments with
  | nil => rfl
  | cons segment segments =>
      have joined := Text.join_concat [Byte.slash]
        (List.cons_ne_nil segment segments) last
      rw [ofSegments, if_pos rfl, joined]
      simp [ofSegments, lead]

theorem ofSegments_prefix_lead (segments : List Text) :
    ofSegments true segments <+: lead segments := by
  cases segments with
  | nil => exact List.prefix_rfl
  | cons segment segments => exact List.prefix_append _ _

theorem lead_prefix_concat (segments : List Text) (name : Text) :
    lead segments <+: ofSegments true (segments ++ [name]) := by
  rw [ofSegments_concat]
  exact List.prefix_append _ _

/-- A path from the root does not end with a slash, unless it is the root. -/
theorem endsWith_ofSegments (proper : IsSegment last) :
    Text.endsWith (ofSegments true (segments ++ [last])) [Byte.slash] = false := by
  rw [← Bool.not_eq_true, Text.endsWith, List.isSuffixOf_iff_suffix, ofSegments_concat]
  rintro ⟨before, spelled⟩
  rw [← List.dropLast_concat_getLast proper.nonempty, ← List.append_assoc] at spelled
  have same : [Byte.slash] = [last.getLast proper.nonempty] :=
    (List.append_inj' spelled rfl).2
  exact proper.whole (List.head_eq_of_cons_eq same ▸ List.getLast_mem proper.nonempty)

theorem pieces_lead_append (proper : ∀ segment ∈ segments, IsSegment segment)
    (rest : Text) :
    pieces (lead segments ++ rest) = [] :: segments ++ pieces rest := by
  cases segments with
  | nil => simp [pieces, lead, Text.splitOn]
  | cons segment segments =>
      have spelled := pieces_ofSegments true (List.cons_ne_nil segment segments)
        fun piece member => (proper piece member).whole
      rw [lead, List.isEmpty_cons, if_neg Bool.false_ne_true, List.append_assoc,
        List.singleton_append, pieces, Text.splitOn_append]
      exact congrArg (· ++ _) spelled

theorem isAbsolute_lead (segments : List Text) : isAbsolute (lead segments) = true := by
  cases segments <;> rfl

theorem segments_lead (proper : ∀ segment ∈ segments, IsSegment segment) :
    Path.segments (lead segments) = segments := by
  have found := pieces_lead_append proper []
  rw [List.append_nil] at found
  rw [Path.segments, isAbsolute_lead, found, List.cons_append, List.foldl_cons,
    push_nil, List.foldl_append, foldl_push proper, List.append_nil]
  exact List.reverse_reverse segments

theorem clean_lead (proper : ∀ segment ∈ segments, IsSegment segment) :
    clean (lead segments) = ofSegments true segments := by
  rw [clean, isAbsolute_lead, segments_lead proper]

theorem pieces_ofSegments_concat (proper : ∀ segment ∈ segments, IsSegment segment)
    (whole : Byte.slash ∉ last) :
    pieces (ofSegments true (segments ++ [last])) = [] :: segments ++ [last] := by
  rw [ofSegments_concat, pieces_lead_append proper, pieces,
    Text.splitOn_of_not_mem whole]

theorem ofSegments_prefix_append (segments more : List Text) :
    ofSegments true segments <+: ofSegments true (segments ++ more) := by
  induction more generalizing segments with
  | nil => simpa only [List.append_nil] using List.prefix_rfl
  | cons name more ih =>
      rw [List.append_cons]
      exact ((ofSegments_prefix_lead segments).trans
        (lead_prefix_concat segments name)).trans (ih (segments ++ [name]))

/-- Clean paths that start like the paths below a directory have its segments in
front. -/
theorem prefix_of_lead {others : List Text}
    (proper : ∀ segment ∈ segments, IsSegment segment)
    (whole : ∀ segment ∈ others, Byte.slash ∉ segment)
    (starts : lead segments <+: ofSegments true others) : segments <+: others := by
  obtain ⟨rest, spelled⟩ := starts
  have parted := (pieces_lead_append proper rest).symm.trans (congrArg pieces spelled)
  cases others with
  | nil =>
      -- The root has two pieces, both empty, and the last one is not a segment.
      have alone : segments ++ pieces rest = [[]] := List.cons.inj parted |>.2
      cases segments with
      | nil => exact List.nil_prefix
      | cons segment segments =>
          exact absurd (List.cons.inj alone).1 (proper segment (by simp)).nonempty
  | cons name others =>
      rw [pieces_ofSegments true (List.cons_ne_nil name others) whole] at parted
      exact ⟨pieces rest, (List.cons.inj parted).2⟩

/-- The directory that a clean path is in. -/
theorem directory_ofSegments (proper : ∀ segment ∈ segments, IsSegment segment)
    (whole : Byte.slash ∉ last) :
    directory (ofSegments true (segments ++ [last])) = ofSegments true segments := by
  have ends : lastPiece (ofSegments true (segments ++ [last])) = last := by
    rw [lastPiece, pieces_ofSegments_concat proper whole, List.getLastD_eq_getLast?,
      List.getLast?_concat, Option.getD_some]
  rw [directory, ends, ofSegments_concat, List.length_append, Nat.add_sub_cancel,
    List.take_left, clean_lead proper]

theorem ofSegments_append (segments : List Text) (last more : Text) :
    ofSegments true (segments ++ [last]) ++ more
      = ofSegments true (segments ++ [last ++ more]) := by
  rw [ofSegments_concat, ofSegments_concat, List.append_assoc]

end Segments

/-! ## Cleaned paths -/

theorem foldl_pieces_clean (path : Text) (isRooted : Bool) (base : List Text) :
    (pieces (clean path)).foldl (push isRooted) base
      = (segments path).foldl (push isRooted) base := by
  have whole := whole_segments path
  rw [clean]
  cases all : segments path with
  | nil =>
      rw [ofSegments]
      split
      · rfl
      · rfl
  | cons segment rest =>
      rw [all] at whole
      rw [pieces_ofSegments _ (List.cons_ne_nil segment rest) fun segment member =>
        (whole segment member).1]
      split
      · rfl
      · rfl

theorem isAbsolute_clean (path : Text) : isAbsolute (clean path) = isAbsolute path := by
  have whole := whole_segments path
  rw [clean, ofSegments]
  cases rooted : isAbsolute path with
  | true => rfl
  | false =>
      cases all : segments path with
      | nil => rfl
      | cons segment rest =>
          rw [all, List.forall_mem_cons] at whole
          obtain ⟨⟨slash, present⟩, -⟩ := whole
          obtain ⟨byte, more, rfl⟩ := List.exists_cons_of_ne_nil present
          rw [List.mem_cons, not_or] at slash
          cases rest <;> simpa [isAbsolute, Text.join] using Ne.symm slash.1

/-- The directory that a path is in starts at the root if the path does. -/
theorem isAbsolute_directory (path : Text) :
    isAbsolute (directory path) = isAbsolute path := by
  rw [directory, isAbsolute_clean]
  cases path with
  | nil => rfl
  | cons byte rest =>
      by_cases slash : byte = Byte.slash
      · have parted : pieces (byte :: rest) = [] :: pieces rest := by
          rw [slash]
          exact Text.splitOn_append Byte.slash [] rest
        have last : lastPiece (byte :: rest) ∈ pieces rest := by
          rw [lastPiece, parted, List.getLastD_cons, List.getLastD_eq_getLast?,
            pieces, List.getLast?_eq_some_getLast (Text.splitOn_ne_nil Byte.slash rest)]
          exact List.getLast_mem _
        have short := Text.length_le_of_mem_splitOn last
        rw [List.length_cons, Nat.succ_sub short]
        rfl
      · have relative : isAbsolute (byte :: rest) = false := by
          simpa [isAbsolute] using slash
        rw [relative]
        cases rest.length + 1 - (lastPiece (byte :: rest)).length with
        | zero => rfl
        | succ count => exact relative

/-- Cleaning keeps the segments of a path. -/
theorem segments_clean (path : Text) : segments (clean path) = segments path := by
  have settled := (settled_segments path).foldl_reverse
  rw [List.reverse_reverse] at settled
  rw [segments, isAbsolute_clean, foldl_pieces_clean, settled, List.reverse_reverse]

theorem segments_ofSegments {segments : List Text}
    (proper : ∀ segment ∈ segments, IsSegment segment) :
    Path.segments (ofSegments true segments) = segments := by
  rw [← clean_lead proper, segments_clean, segments_lead proper]

/-- A clean path is spelled from its own segments. -/
theorem IsClean.ofSegments_segments {path : Text} (isClean : IsClean path) :
    (∀ segment ∈ segments path, IsSegment segment)
      ∧ ofSegments true (segments path) = path := by
  obtain ⟨segments, proper, rfl⟩ := isClean
  rw [segments_ofSegments proper]
  exact ⟨proper, rfl⟩

/-- A path that does not start at the root is followed from the directory that it is
seen from. -/
theorem segments_absolute {cwd path : Text} (rooted : isAbsolute cwd = true)
    (relative : isAbsolute path = false) :
    segments (absolute cwd path)
      = ((segments path).foldl (push true) (segments cwd).reverse).reverse := by
  obtain ⟨byte, rest, rfl⟩ : ∃ byte rest, cwd = byte :: rest := by
    cases cwd with
    | nil => cases rooted
    | cons byte rest => exact ⟨byte, rest, rfl⟩
  have behind : isAbsolute (byte :: rest ++ [Byte.slash] ++ path) = true := rooted
  have start : (segments (byte :: rest)).reverse
      = (pieces (byte :: rest)).foldl (push true) [] := by
    rw [segments, rooted, List.reverse_reverse]
  rw [absolute, relative, if_neg Bool.false_ne_true, join, List.isEmpty_cons,
    if_neg Bool.false_ne_true, segments_clean, segments, behind, List.append_assoc,
    List.singleton_append, pieces, Text.splitOn_append, List.foldl_append,
    foldl_push_segments relative, start]
  rfl

/-- A clean path is not changed by cleaning, nor by looking at it from the root. -/
theorem IsClean.absolute {path : Text} (isClean : IsClean path) (cwd : Text) :
    Path.absolute cwd path = path := by
  rw [Path.absolute, if_pos isClean.isAbsolute, clean, isClean.isAbsolute]
  exact isClean.ofSegments_segments.2

/-- Clean paths with the same segments are the same. -/
theorem IsClean.eq_iff {path other : Text} (isClean : IsClean path)
    (also : IsClean other) :
    path = other ↔ segments path = segments other := by
  refine ⟨congrArg segments, fun same => ?_⟩
  rw [← isClean.ofSegments_segments.2, same, also.ofSegments_segments.2]

/-! ## Names in directories -/

section Names

variable {name : Text}

/-- What is cleaned when a name is put behind a path: the pieces of the path, and then
the name. -/
theorem exists_join_eq_clean (path : Text) (proper : IsSegment name) :
    ∃ text, join path name = clean text ∧ isAbsolute text = isAbsolute path
      ∧ ∀ isRooted base, (pieces text).foldl (push isRooted) base
        = name :: (pieces path).foldl (push isRooted) base := by
  have alone : pieces name = [name] := Text.splitOn_of_not_mem proper.whole
  rw [join]
  cases path with
  | nil =>
      refine ⟨name, ?_, ?_, fun isRooted base => ?_⟩
      · rw [List.isEmpty_nil, if_pos rfl,
          if_neg (mt List.isEmpty_iff.mp proper.nonempty)]
      · obtain ⟨byte, more, rfl⟩ := List.exists_cons_of_ne_nil proper.nonempty
        have slash := proper.whole
        rw [List.mem_cons, not_or] at slash
        simpa [isAbsolute] using Ne.symm slash.1
      · rw [alone]
        exact push_segment isRooted base proper
  | cons byte path =>
      refine ⟨byte :: path ++ [Byte.slash] ++ name, rfl, rfl, fun isRooted base => ?_⟩
      have parted : pieces (byte :: path ++ [Byte.slash] ++ name)
          = pieces (byte :: path) ++ [name] := by
        rw [List.append_assoc, List.singleton_append, pieces, Text.splitOn_append]
        exact congrArg _ alone
      rw [parted, List.foldl_append]
      exact push_segment isRooted _ proper

theorem isAbsolute_join (path : Text) (proper : IsSegment name) :
    isAbsolute (join path name) = isAbsolute path := by
  obtain ⟨text, joined, same, -⟩ := exists_join_eq_clean path proper
  rw [joined, isAbsolute_clean, same]

theorem segments_join (path : Text) (proper : IsSegment name) :
    segments (join path name) = segments path ++ [name] := by
  obtain ⟨text, joined, same, pushed⟩ := exists_join_eq_clean path proper
  rw [joined, segments_clean, segments, same, pushed, List.reverse_cons, segments]

theorem join_eq_ofSegments (path : Text) (proper : IsSegment name) :
    join path name = ofSegments (isAbsolute path) (segments path ++ [name]) := by
  obtain ⟨text, joined, same, pushed⟩ := exists_join_eq_clean path proper
  rw [joined, clean, same, segments, same, pushed, List.reverse_cons, segments]

theorem lastPiece_join (path : Text) (proper : IsSegment name) :
    lastPiece (join path name) = name := by
  have whole : ∀ segment ∈ segments path ++ [name], Byte.slash ∉ segment := by
    rw [List.forall_mem_append]
    exact ⟨fun segment member => (whole_segments path segment member).1,
      List.forall_mem_singleton.mpr proper.whole⟩
  rw [lastPiece, join_eq_ofSegments path proper, pieces_ofSegments _ (by simp) whole]
  split
  · rw [← List.cons_append, List.getLastD_concat]
  · rw [List.getLastD_concat]

theorem extension_join (path : Text) (proper : IsSegment name) :
    extension (join path name) = extension name := by
  have alone : lastPiece name = name := by
    rw [lastPiece, pieces, Text.splitOn_of_not_mem proper.whole]
    rfl
  rw [extension, extension, lastPiece_join path proper, alone]

/-- As seen from the root, too, the name is put behind the segments of the path. -/
theorem segments_absolute_join {cwd : Text} (rooted : isAbsolute cwd = true)
    (path : Text) (proper : IsSegment name) :
    segments (absolute cwd (join path name))
      = segments (absolute cwd path) ++ [name] := by
  have same := isAbsolute_join path proper
  cases isRooted : isAbsolute path with
  | true =>
      rw [absolute, absolute, same, isRooted, if_pos rfl, if_pos rfl, segments_clean,
        segments_clean, segments_join path proper]
  | false =>
      rw [segments_absolute rooted (same.trans isRooted),
        segments_absolute rooted isRooted, segments_join path proper, List.foldl_append,
        List.foldl_cons, List.foldl_nil, push_segment true _ proper, List.reverse_cons]

/-- A name put behind a path is put behind a clean path from the root. -/
theorem exists_absolute_join {cwd : Text} (rooted : isAbsolute cwd = true) (path : Text)
    (proper : IsSegment name) :
    ∃ segments, (∀ segment ∈ segments, IsSegment segment)
      ∧ absolute cwd path = ofSegments true segments
      ∧ absolute cwd (join path name) = ofSegments true (segments ++ [name]) := by
  obtain ⟨each, spelled⟩ := (isClean_absolute rooted path).ofSegments_segments
  obtain ⟨-, longer⟩ := (isClean_absolute rooted (join path name)).ofSegments_segments
  rw [segments_absolute_join rooted path proper] at longer
  exact ⟨_, each, spelled.symm, longer.symm⟩

end Names

/-! ## Ways down -/

section Names

variable {names : List Text}

/-- A path leads below another one by the names behind it. -/
theorem segments_foldl_join (path : Text) (proper : ∀ name ∈ names, IsSegment name) :
    segments (names.foldl join path) = segments path ++ names := by
  induction names generalizing path with
  | nil => exact (List.append_nil _).symm
  | cons name names ih =>
      rw [List.forall_mem_cons] at proper
      rw [List.foldl_cons, ih (join path name) proper.2, segments_join path proper.1,
        List.append_assoc, List.singleton_append]

/-- Different names lead to different paths. -/
theorem foldl_join_injective {path : Text} {others : List Text}
    (proper : ∀ name ∈ names, IsSegment name) (each : ∀ name ∈ others, IsSegment name)
    (same : names.foldl join path = others.foldl join path) : names = others := by
  have spelled := congrArg segments same
  rw [segments_foldl_join path proper, segments_foldl_join path each] at spelled
  exact List.append_cancel_left spelled

theorem isAbsolute_foldl_join (path : Text) (proper : ∀ name ∈ names, IsSegment name) :
    isAbsolute (names.foldl join path) = isAbsolute path := by
  induction names generalizing path with
  | nil => rfl
  | cons name names ih =>
      rw [List.forall_mem_cons] at proper
      rw [List.foldl_cons, ih (join path name) proper.2, isAbsolute_join path proper.1]

theorem wayBetween?_append (bases targets : List Text) :
    wayBetween? bases (bases ++ targets) = some targets := by
  induction bases with
  | nil => cases targets <;> rfl
  | cons base bases ih =>
      rw [List.cons_append, wayBetween?, if_pos (beq_self_eq_true base), ih]

/-- The way from a directory to a path below it is by the names in between. -/
theorem relative?_foldl_join (path : Text) (proper : ∀ name ∈ names, IsSegment name) :
    relative? path (names.foldl join path) = some names := by
  rw [relative?, isAbsolute_foldl_join path proper, if_pos (beq_self_eq_true _),
    segments_foldl_join path proper, wayBetween?_append]

end Names

end Path

end Lineup
