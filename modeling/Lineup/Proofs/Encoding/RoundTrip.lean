import Lineup.Proofs.Encoding

/-!
# Round trips through encodings

A text that is written in an encoding is read back, unless the file is taken for one in
another encoding: plain UTF-8 that starts with the character of the mark, and UTF-16
that starts with NUL, whose mark then looks like that of UTF-32. The other way round, a
file is written back byte by byte exactly when its body is well formed: such a body
spells characters in its encoding, and whatever is written is such a body.
-/

namespace Lineup

/-! ## Units and their bytes -/

namespace ByteOrder

theorem bytes16_unit16 (order : ByteOrder) (first second : UInt8) :
    order.bytes16 (order.unit16 first second) = [first, second] := by
  have low := first.toNat_lt
  have high := second.toNat_lt
  cases order with
  | littleEndian =>
      simp only [bytes16, unit16, List.cons.injEq, and_true]
      constructor
      · exact Utf8.ofNat_eq first (by omega)
      · exact Utf8.ofNat_eq second (by omega)
  | bigEndian =>
      simp only [bytes16, unit16, List.cons.injEq, and_true]
      constructor
      · exact Utf8.ofNat_eq first (by omega)
      · exact Utf8.ofNat_eq second (by omega)

theorem unit16_lt (order : ByteOrder) (first second : UInt8) :
    order.unit16 first second < 65536 := by
  have low := first.toNat_lt
  have high := second.toNat_lt
  cases order with
  | littleEndian =>
      rw [unit16]
      omega
  | bigEndian =>
      rw [unit16]
      omega

theorem length_flatMap_bytes16 (order : ByteOrder) (units : List Nat) :
    (units.flatMap order.bytes16).length = 2 * units.length := by
  have each (unit : Nat) : (order.bytes16 unit).length = 2 := by cases order <;> rfl
  induction units with
  | nil => rfl
  | cons unit units ih =>
      rw [List.flatMap_cons, List.length_append, each, ih, List.length_cons]
      omega

theorem bytes32_unit32 (order : ByteOrder) (first second third fourth : UInt8) :
    order.bytes32 (order.unit32 first second third fourth)
      = [first, second, third, fourth] := by
  -- The lower half is a number below 65536, so both halves are found by division.
  have halves {low high : Nat} (small : low < 65536) :
      (high * 65536 + low) % 65536 = low ∧ (high * 65536 + low) / 65536 = high := by
        omega
  cases order with
  | littleEndian =>
      obtain ⟨low, high⟩ := halves (littleEndian.unit16_lt first second)
      rw [unit32, bytes32, low, high, bytes16_unit16, bytes16_unit16]
      rfl
  | bigEndian =>
      obtain ⟨low, high⟩ := halves (bigEndian.unit16_lt third fourth)
      rw [unit32, bytes32, low, high, bytes16_unit16, bytes16_unit16]
      rfl

end ByteOrder

/-! ## UTF-16 -/

namespace Utf16

/-- Every unit of a pair is part of one: a first unit stands in front of a second one,
and a second unit behind a first one. -/
def Paired (units : List Nat) : Prop :=
  ∀ before unit after, units = before ++ unit :: after →
    (isHigh unit = true → ∃ next ∈ after.head?, isLow next = true)
      ∧ (isLow unit = true → ∃ previous ∈ before.getLast?, isHigh previous = true)

/-- A body in UTF-16 without a byte left over, in which all pairs are whole. -/
structure WellFormed (order : ByteOrder) (body : Text) : Prop where
  even : body.length % 2 = 0
  paired : Paired (units order body).1

theorem isHigh_of_isLow {unit : Nat} (low : isLow unit = true) :
    isHigh unit = false := by
  simp only [isLow, Bool.and_eq_true, decide_eq_true_eq] at low
  simp only [isHigh, Bool.and_eq_false_imp, decide_eq_true_eq, decide_eq_false_iff_not]
  omega

namespace Paired

variable {unit : Nat} {units others : List Nat}

theorem nil : Paired [] := by
  intro before unit after same
  simp at same

theorem append (paired : Paired units) (behind : Paired others) :
    Paired (units ++ others) := by
  intro before unit after same
  -- The unit is one of the first units or one of the others.
  rcases List.append_eq_append_iff.mp same with ⟨within, rfl, rest⟩ | ⟨gap, rfl, rest⟩
  · obtain ⟨high, low⟩ := behind within unit after rest
    refine ⟨high, fun is => ?_⟩
    obtain ⟨previous, last, first⟩ := low is
    exact ⟨previous, List.mem_getLast?_append_of_mem_getLast? last, first⟩
  · cases gap with
    | nil =>
        obtain ⟨high, low⟩ := behind [] unit after rest.symm
        refine ⟨high, fun is => ?_⟩
        obtain ⟨previous, last, -⟩ := low is
        cases last
    | cons own gap =>
        obtain ⟨rfl, rfl⟩ := List.cons.inj rest
        obtain ⟨high, low⟩ := paired before unit gap rfl
        refine ⟨fun is => ?_, low⟩
        obtain ⟨next, first, second⟩ := high is
        exact ⟨next, List.mem_head?_append_of_mem_head? first, second⟩

theorem flatMap {α : Type} {write : α → List Nat} (each : ∀ value, Paired (write value))
    (values : List α) : Paired (values.flatMap write) := by
  induction values with
  | nil => exact nil
  | cons value values ih => exact (each value).append ih

theorem single (notHigh : isHigh unit = false) (notLow : isLow unit = false) :
    Paired [unit] := by
  intro before own after same
  cases before with
  | nil =>
      cases same
      exact ⟨fun high => absurd (notHigh.symm.trans high) Bool.false_ne_true,
        fun low => absurd (notLow.symm.trans low) Bool.false_ne_true⟩
  | cons other before => simp at same

theorem pair {first second : Nat} (high : isHigh first = true)
    (low : isLow second = true) :
    Paired [first, second] := by
  intro before unit after same
  match before with
  | [] =>
      cases same
      refine ⟨fun _ => ⟨second, rfl, low⟩, fun other => ?_⟩
      exact absurd ((isHigh_of_isLow other).symm.trans high) Bool.false_ne_true
  | [_] =>
      cases same
      refine ⟨fun other => ?_, fun _ => ⟨first, rfl, high⟩⟩
      exact absurd ((isHigh_of_isLow low).symm.trans other) Bool.false_ne_true
  | _ :: _ :: _ => simp at same

theorem isLow_head (paired : Paired (unit :: units)) : isLow unit = false := by
  apply Bool.eq_false_iff.mpr
  intro low
  obtain ⟨previous, last, -⟩ := (paired [] unit units rfl).2 low
  cases last

/-- What stands behind a unit that does not start a pair. -/
theorem behind (front : List Nat) (paired : Paired (front ++ unit :: units))
    (ends : isHigh unit = false) : Paired units := by
  intro before other after same
  obtain ⟨high, low⟩ := paired (front ++ unit :: before) other after (by simp [same])
  refine ⟨high, fun is => ?_⟩
  obtain ⟨previous, last, first⟩ := low is
  cases before with
  | nil =>
      rw [List.getLast?_concat, Option.mem_some_iff] at last
      rw [← last, ends] at first
      cases first
  | cons next before =>
      rw [List.append_cons,
        List.getLast?_append_of_ne_nil _ (List.cons_ne_nil next before)] at last
      exact ⟨previous, last, first⟩

end Paired

theorem units_lt (order : ByteOrder) (body : Text) :
    ∀ unit ∈ (units order body).1, unit < 65536 := by
  fun_induction units order body with
  | case1 => simp
  | case2 => simp
  | case3 first second rest later leftOver found ih =>
      rw [found] at ih
      rw [List.forall_mem_cons]
      exact ⟨order.unit16_lt first second, ih⟩

theorem units_of_even (order : ByteOrder) (body : Text) :
    body.length % 2 = 0 → ∃ units, Utf16.units order body = (units, false)
      ∧ units.flatMap order.bytes16 = body := by
  fun_induction units order body with
  | case1 => exact fun _ => ⟨[], rfl, rfl⟩
  | case2 byte =>
      intro even
      rw [List.length_singleton] at even
      cases even
  | case3 first second rest later leftOver found ih =>
      intro even
      rw [List.length_cons, List.length_cons] at even
      obtain ⟨units, same, bytes⟩ := ih (by omega)
      cases found.symm.trans same
      refine ⟨_, rfl, ?_⟩
      rw [List.flatMap_cons, bytes, order.bytes16_unit16]
      rfl

theorem toUnits_charOfCode {unit : Nat} (notHigh : isHigh unit = false)
    (notLow : isLow unit = false) (small : unit < 65536) :
    toUnits (charOfCode unit) = [unit] := by
  have scalar : Utf8.isScalar unit = true := by
    simp only [isHigh, isLow, Bool.and_eq_false_imp, decide_eq_true_eq,
      decide_eq_false_iff_not]
      at notHigh notLow
    simp only [Utf8.isScalar, Bool.or_eq_true, Bool.and_eq_true, decide_eq_true_eq]
    omega
  rw [charOfCode, if_pos scalar, toUnits, Utf8.toNat_charOfNat scalar, if_pos small]

theorem toUnits_ofPair {first second : Nat} (high : isHigh first = true)
    (low : isLow second = true) :
    toUnits (ofPair first second) = [first, second] := by
  rw [toUnits, toNat_ofPair high low]
  simp only [isHigh, isLow, Bool.and_eq_true, decide_eq_true_eq] at high low
  rw [if_neg (by omega)]
  simp only [List.cons.injEq, and_true]
  omega

/-- Units in which all pairs are whole are those of the characters that are read from
them. -/
theorem toUnits_ofUnits {units : List Nat} (paired : Paired units)
    (small : ∀ unit ∈ units, unit < 65536) :
    (ofUnits units).flatMap toUnits = units := by
  fun_induction ofUnits units with
  | case1 => rfl
  | case2 unit =>
      have notHigh : isHigh unit = false := by
        apply Bool.eq_false_iff.mpr
        intro high
        obtain ⟨next, empty, -⟩ := (paired [] unit [] rfl).1 high
        cases empty
      rw [List.flatMap_singleton]
      exact toUnits_charOfCode notHigh paired.isLow_head (small unit List.mem_cons_self)
  | case3 first second rest joined ih =>
      rw [paired.isLow_head, Bool.or_false, Bool.and_eq_true] at joined
      have later := paired.behind [first] (isHigh_of_isLow joined.2)
      rw [List.forall_mem_cons, List.forall_mem_cons] at small
      rw [List.flatMap_cons, toUnits_ofPair joined.1 joined.2, ih later small.2.2]
      rfl
  | case4 first second rest apart ih =>
      have notHigh : isHigh first = false := by
        apply Bool.eq_false_iff.mpr
        intro high
        obtain ⟨next, is, low⟩ := (paired [] first (second :: rest) rfl).1 high
        cases is
        rw [high, low] at apart
        exact apart rfl
      have later := paired.behind [] notHigh
      rw [List.forall_mem_cons] at small
      rw [List.flatMap_cons, toUnits_charOfCode notHigh paired.isLow_head small.1,
        ih later small.2]
      rfl

theorem paired_toUnits (character : Char) : Paired (toUnits character) := by
  rcases toUnits_cases character with
    ⟨units, -, notHigh, notLow⟩ | ⟨first, second, units, high, low, -⟩
  · rw [units]
    exact .single notHigh notLow
  · rw [units]
    exact .pair high low

theorem wellFormed_write (order : ByteOrder) (characters : List Char) :
    WellFormed order (write order characters) := by
  constructor
  · rw [write, order.length_flatMap_bytes16, Nat.mul_mod_right]
  · rw [units_write]
    exact .flatMap paired_toUnits characters

/-- A body is written back exactly when it is well formed. -/
theorem write_read_iff (order : ByteOrder) (body : Text) :
    write order (read order body) = body ↔ WellFormed order body := by
  constructor
  · intro same
    rw [← same]
    exact wellFormed_write order _
  · intro formed
    obtain ⟨units, found, bytes⟩ := units_of_even order body formed.even
    have small := units_lt order body
    have paired := formed.paired
    rw [found] at small paired
    rw [read, found]
    simp only [Bool.false_eq_true, if_false, List.append_nil]
    rw [write, toUnits_ofUnits paired small, bytes]

end Utf16

/-! ## UTF-32 -/

namespace Utf32

/-- The units of a text, without bytes left over. -/
def units (order : ByteOrder) : Text → List Nat
  | first :: second :: third :: fourth :: rest =>
      order.unit32 first second third fourth :: units order rest
  | _ => []

/-- A body in UTF-32 without bytes left over, in which every unit is a character. -/
structure WellFormed (order : ByteOrder) (body : Text) : Prop where
  whole : body.length % 4 = 0
  scalars : ∀ unit ∈ units order body, Utf8.isScalar unit = true

theorem wellFormed_write (order : ByteOrder) (characters : List Char) :
    WellFormed order (write order characters) := by
  induction characters with
  | nil => exact ⟨rfl, by simp [write, units]⟩
  | cons character characters ih =>
      have bound : character.toNat < 4294967296 :=
        Nat.lt_trans (Utf8.toNat_lt character) (by decide)
      obtain ⟨first, second, third, fourth, bytes, same⟩ := order.unit32_bytes32 bound
      have spelled : write order (character :: characters)
          = first :: second :: third :: fourth :: write order characters := by
        rw [write, List.flatMap_cons, bytes]
        rfl
      rw [spelled]
      constructor
      · have whole := ih.whole
        simp only [List.length_cons]
        omega
      · rw [units, List.forall_mem_cons, same]
        exact ⟨Utf8.isScalar_toNat character, ih.scalars⟩

/-- A body is written back exactly when it is well formed. -/
theorem write_read_iff (order : ByteOrder) (body : Text) :
    write order (read order body) = body ↔ WellFormed order body := by
  constructor
  · intro same
    rw [← same]
    exact wellFormed_write order _
  · rintro ⟨whole, scalars⟩
    fun_induction read order body with
    | case1 => rfl
    | case2 first second third fourth rest ih =>
        rw [units, List.forall_mem_cons] at scalars
        simp only [List.length_cons] at whole
        have later := ih (by omega) scalars.2
        rw [write] at later
        rw [write, List.flatMap_cons, charOfCode, if_pos scalars.1,
          Utf8.toNat_charOfNat scalars.1, order.bytes32_unit32, later]
        rfl
    | case3 body present short =>
        -- One to three bytes are no whole unit.
        rcases body with _ | ⟨first, _ | ⟨second, _ | ⟨third, _ | ⟨fourth, rest⟩⟩⟩⟩
        · exact absurd rfl present
        · cases whole
        · cases whole
        · cases whole
        · exact (short _ _ _ _ _ rfl).elim

end Utf32

/-! ## All encodings -/

namespace Encoding

/-- A body that is well formed in its encoding. In UTF-8 every body is taken as it
is. -/
def WellFormed (encoding : Encoding) (body : Text) : Prop :=
  match encoding with
  | utf8 | utf8Marked => True
  | utf16 order => Utf16.WellFormed order body
  | utf32 order => Utf32.WellFormed order body

theorem encodeBody_decodeBody_iff (encoding : Encoding) (body : Text) :
    encoding.encodeBody (encoding.decodeBody body) = body
      ↔ encoding.WellFormed body := by
  cases encoding with
  | utf8 => exact iff_of_true rfl trivial
  | utf8Marked => exact iff_of_true rfl trivial
  | utf16 order =>
      rw [decodeBody, encodeBody, Text.chars_ofChars]
      exact Utf16.write_read_iff order body
  | utf32 order =>
      rw [decodeBody, encodeBody, Text.chars_ofChars]
      exact Utf32.write_read_iff order body

/-- A file is written back byte by byte exactly when the body behind its mark is well
formed. -/
theorem encode_decode_iff (data : Text) :
    (decode data).2.encode (decode data).1 = data
      ↔ (decode data).2.WellFormed (data.drop (decode data).2.mark.length) := by
  have whole := mark_append_drop data
  rw [← encodeBody_decodeBody_iff]
  simp only [decode, encode]
  constructor
  · intro same
    exact List.append_cancel_left (same.trans whole.symm)
  · intro same
    rw [same, whole]

theorem mem_mark {encoding : Encoding}
    (wide : encoding ≠ .utf8 ∧ encoding ≠ .utf8Marked) :
    0xff ∈ encoding.mark := by
  cases encoding with
  | utf8 => exact absurd rfl wide.1
  | utf8Marked => exact absurd rfl wide.2
  | utf16 order => cases order <;> decide
  | utf32 order => cases order <;> decide

/-- A text is taken for plain UTF-8 unless it starts with the character of the mark. -/
theorem detect_ofChars_iff (characters : List Char) :
    detect (Text.ofChars characters) = .utf8 ↔ characters.head? ≠ some '\ufeff' := by
  have marked : (Text.ofChars characters).startsWith utf8Marked.mark = true
      ↔ characters.head? = some '\ufeff' :=
        Text.startsWith_write_iff '\ufeff' characters
  rw [detect_eq_utf8_iff, Ne, ← marked, Bool.not_eq_true]
  constructor
  · intro empty
    exact empty .utf8Marked nofun
  · intro unmarked encoding other
    by_cases same : encoding = .utf8Marked
    · rwa [same]
    · apply Bool.eq_false_iff.mpr
      intro starts
      have within := (List.isPrefixOf_iff_prefix.mp starts).subset
        (mem_mark ⟨other, same⟩)
      exact absurd (Text.WellFormed.lt_of_mem ⟨characters, rfl⟩ _ within) (by decide)

/-- The encoding of a text that was written is found again, with two exceptions. -/
theorem detect_encode_iff (encoding : Encoding) (characters : List Char) :
    detect (encoding.encode (Text.ofChars characters)) = encoding
      ↔ ¬ (encoding = .utf8 ∧ characters.head? = some '\ufeff'
        ∨ encoding = .utf16 .littleEndian
        ∧ characters.head? = some (Char.ofNat 0)) := by
  by_cases plain : encoding = .utf8
  · subst plain
    have found := detect_ofChars_iff characters
    simpa [encode, mark, encodeBody] using found
  by_cases little : encoding = .utf16 .littleEndian
  · subst little
    rw [encode, detect_littleEndian, encodeBody, Text.chars_ofChars,
      ← Utf16.startsWith_write_iff]
    simp
  · simp only [plain, little, false_and, or_self, not_false_eq_true, iff_true]
    exact detect_mark_append encoding plain little _

/-- What is written in an encoding is read back, text and encoding, unless it is plain
UTF-8 that starts with the character of the mark, or UTF-16 with the lower bytes first
that starts with NUL. -/
theorem decode_encode_iff {text : Text} (formed : text.isWellFormed = true)
    (encoding : Encoding) :
    decode (encoding.encode text) = (text, encoding)
      ↔ ¬ (encoding = .utf8 ∧ text.startsWith (Utf8.write '\ufeff') = true
        ∨ encoding = .utf16 .littleEndian
          ∧ text.startsWith (Utf8.write '\x00') = true) := by
  have wellFormed := Text.isWellFormed_iff.mp formed
  obtain ⟨characters, rfl⟩ := wellFormed
  rw [Text.startsWith_write_iff, Text.startsWith_write_iff]
  have detected := detect_encode_iff encoding characters
  constructor
  · intro same
    exact detected.mp (congrArg Prod.snd same)
  · intro apart
    exact decode_encode (detected.mpr apart) (.inl ⟨characters, rfl⟩)

/-- The character of the mark at the start of a text is lost in plain UTF-8, and kept in
UTF-16 in front of a pair. -/
theorem decode_encode_iff_mark :
    let text := Lineup.utf8 "\ufeff😀"
    text.isWellFormed = true ∧ decode (utf8.encode text) ≠ (text, .utf8)
      ∧ decode ((utf16 .littleEndian).encode text) = (text, .utf16 .littleEndian) := by
  intro text
  have formed : text.isWellFormed = true := by decide
  refine ⟨formed, ?_, ?_⟩
  · intro same
    exact (decode_encode_iff formed .utf8).mp same (by decide)
  · exact (decode_encode_iff formed (.utf16 .littleEndian)).mpr (by decide)

end Encoding

end Lineup
