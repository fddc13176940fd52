import Lineup.Encoding.Wide
import Lineup.Proofs.Text.Utf8

/-!
# Reading back UTF-16 and UTF-32

Characters that were written in units of two or four bytes are read back, in both byte
orders. A text in UTF-16 starts with two zero bytes only when its first character is
NUL.
-/

namespace Lineup

namespace ByteOrder

theorem unit16_bytes16 (order : ByteOrder) {unit : Nat} (small : unit < 65536) :
    ∃ first second, order.bytes16 unit = [first, second]
      ∧ order.unit16 first second = unit := by
  have low : (unit % 256).toUInt8.toNat = unit % 256 := Utf8.toNat_ofNat (by omega)
  have high : (unit / 256).toUInt8.toNat = unit / 256 := Utf8.toNat_ofNat (by omega)
  cases order with
  | littleEndian =>
      refine ⟨_, _, rfl, ?_⟩
      rw [unit16, low, high]
      omega
  | bigEndian =>
      refine ⟨_, _, rfl, ?_⟩
      rw [unit16, low, high]
      omega

theorem unit32_bytes32 (order : ByteOrder) {unit : Nat} (small : unit < 4294967296) :
    ∃ first second third fourth, order.bytes32 unit = [first, second, third, fourth]
      ∧ order.unit32 first second third fourth = unit := by
  have lowSmall : unit % 65536 < 65536 := Nat.mod_lt _ (by decide)
  have highSmall : unit / 65536 < 65536 := by omega
  obtain ⟨low, lower, lowBytes, lowUnit⟩ := order.unit16_bytes16 lowSmall
  obtain ⟨high, higher, highBytes, highUnit⟩ := order.unit16_bytes16 highSmall
  cases order with
  | littleEndian =>
      refine ⟨low, lower, high, higher, ?_, ?_⟩
      · rw [bytes32, lowBytes, highBytes]
        rfl
      · rw [unit32, lowUnit, highUnit]
        omega
  | bigEndian =>
      refine ⟨high, higher, low, lower, ?_, ?_⟩
      · rw [bytes32, lowBytes, highBytes]
        rfl
      · rw [unit32, lowUnit, highUnit]
        omega

end ByteOrder

theorem charOfCode_toNat (character : Char) :
    charOfCode character.toNat = character := by
  rw [charOfCode, if_pos (Utf8.isScalar_toNat character), Char.ofNat_toNat]

namespace Utf16

theorem units_bytes (order : ByteOrder) {units : List Nat}
    (small : ∀ unit ∈ units, unit < 65536) :
    Utf16.units order (units.flatMap order.bytes16) = (units, false) := by
  induction units with
  | nil => rfl
  | cons unit units ih =>
      rw [List.forall_mem_cons] at small
      obtain ⟨first, second, bytes, same⟩ := order.unit16_bytes16 small.1
      rw [List.flatMap_cons, bytes, List.cons_append, List.cons_append, List.nil_append,
        Utf16.units, ih small.2, same]

/-- A character is one unit that is no part of a pair, or a pair that stands for it. -/
theorem toUnits_cases (character : Char) :
    (toUnits character = [character.toNat] ∧ character.toNat < 65536
        ∧ isHigh character.toNat = false ∧ isLow character.toNat = false)
      ∨ ∃ first second, toUnits character = [first, second] ∧ isHigh first = true
        ∧ isLow second = true ∧ ofPair first second = character := by
  have scalar := Utf8.isScalar_toNat character
  have bound := Utf8.toNat_lt character
  simp only [Utf8.isScalar, Bool.or_eq_true, Bool.and_eq_true,
    decide_eq_true_eq] at scalar
  rw [toUnits]
  split
  · rename_i small
    refine .inl ⟨rfl, small, ?_, ?_⟩
    · simp only [isHigh, Bool.and_eq_false_imp, decide_eq_true_eq,
        decide_eq_false_iff_not]
      omega
    · simp only [isLow, Bool.and_eq_false_imp, decide_eq_true_eq,
        decide_eq_false_iff_not]
      omega
  · rename_i large
    have high : isHigh (0xd800 + (character.toNat - 0x10000) / 1024) = true := by
      simp only [isHigh, Bool.and_eq_true, decide_eq_true_eq]
      omega
    have low : isLow (0xdc00 + (character.toNat - 0x10000) % 1024) = true := by
      simp only [isLow, Bool.and_eq_true, decide_eq_true_eq]
      omega
    have code : 0x10000 + (0xd800 + (character.toNat - 0x10000) / 1024 - 0xd800) * 1024
        + (0xdc00 + (character.toNat - 0x10000) % 1024 - 0xdc00) = character.toNat := by
      omega
    refine .inr ⟨_, _, rfl, high, low, ?_⟩
    rw [ofPair, if_pos high, code, Char.ofNat_toNat]

theorem toUnits_lt (character : Char) : ∀ unit ∈ toUnits character, unit < 65536 := by
  rcases toUnits_cases
    character with ⟨units, small, -⟩ | ⟨first, second, units, high, low, -⟩
  · rw [units, List.forall_mem_singleton]
    exact small
  · simp only [isHigh, isLow, Bool.and_eq_true, decide_eq_true_eq] at high low
    simp only [units, List.forall_mem_cons, List.not_mem_nil, false_implies,
      implies_true, and_true]
    omega

theorem ofUnits_toUnits (character : Char) (rest : List Nat) :
    ofUnits (toUnits character ++ rest) = character :: ofUnits rest := by
  rcases toUnits_cases character with
    ⟨units, -, notHigh, notLow⟩ | ⟨first, second, units, high, low, is⟩
  · rw [units]
    cases rest with
    | nil => exact congrArg (· :: []) (charOfCode_toNat character)
    | cons second rest =>
        rw [List.cons_append, List.nil_append, ofUnits, notHigh, notLow,
          charOfCode_toNat]
        rfl
  · rw [units, List.cons_append, List.cons_append, List.nil_append, ofUnits, high, low,
      Bool.true_or, Bool.true_and, if_pos rfl, is]

/-- The units of a body that was written are those of its characters. -/
theorem units_write (order : ByteOrder) (characters : List Char) :
    units order (write order characters) = (characters.flatMap toUnits, false) := by
  apply units_bytes
  intro unit member
  obtain ⟨character, -, within⟩ := List.mem_flatMap.mp member
  exact toUnits_lt character unit within

theorem read_write (order : ByteOrder) (characters : List Char) :
    read order (write order characters) = characters := by
  have units : ofUnits (characters.flatMap toUnits) = characters := by
    induction characters with
    | nil => rfl
    | cons character characters ih => rw [List.flatMap_cons, ofUnits_toUnits, ih]
  rw [read, units_write]
  exact (List.append_nil _).trans units

/-- The first byte of a text is zero when its first character is NUL. -/
theorem startsWith_iff (characters : List Char) :
    (Text.ofChars characters).startsWith [0] = true
      ↔ characters.head? = some (Char.ofNat 0) :=
  Text.startsWith_write_iff (Char.ofNat 0) characters

theorem toUnits_cons (character : Char) : ∃ unit more, toUnits character = unit :: more
    ∧ (unit = 0 → character = Char.ofNat 0) := by
  rw [toUnits]
  split
  · refine ⟨_, _, rfl, fun zero => ?_⟩
    rw [← zero, Char.ofNat_toNat]
  · refine ⟨_, _, rfl, fun zero => ?_⟩
    omega

/-- A body starts with two zero bytes when its first character is NUL. -/
theorem startsWith_write_iff {characters : List Char} :
    (write .littleEndian characters).startsWith [0, 0] = true
      ↔ characters.head? = some (Char.ofNat 0) := by
  constructor
  · intro starts
    cases characters with
    | nil => simp [write, Text.startsWith] at starts
    | cons character characters =>
        have small := toUnits_lt character
        obtain ⟨unit, more, units, nul⟩ := toUnits_cons character
        rw [units, List.forall_mem_cons] at small
        obtain ⟨first, second, bytes, same⟩ :=
          ByteOrder.littleEndian.unit16_bytes16 small.1
        rw [write, List.flatMap_cons, units, List.cons_append, List.flatMap_cons,
          bytes] at starts
        change ((0 == first) && ((0 == second) && true)) = true at starts
        rw [Bool.and_true, Bool.and_eq_true, beq_iff_eq, beq_iff_eq] at starts
        rw [List.head?_cons, nul]
        rw [← same, ← starts.1, ← starts.2]
        rfl
  · intro nul
    obtain ⟨rest, rfl⟩ := List.head?_eq_some_iff.mp nul
    rfl

theorem eq_zero_of_charOfCode {code : Nat} (nul : charOfCode code = Char.ofNat 0) :
    code = 0 := by
  rw [charOfCode] at nul
  split at nul
  · rename_i scalar
    have same := congrArg Char.toNat nul
    rwa [Utf8.toNat_charOfNat scalar] at same
  · exact absurd nul (by decide)

theorem toNat_ofPair {first second : Nat} (high : isHigh first = true)
    (low : isLow second = true) :
    (ofPair first second).toNat
      = 0x10000 + (first - 0xd800) * 1024 + (second - 0xdc00) := by
  rw [ofPair, if_pos high]
  apply Utf8.toNat_charOfNat
  simp only [isHigh, isLow, Bool.and_eq_true, decide_eq_true_eq] at high low
  simp only [Utf8.isScalar, Bool.or_eq_true, Bool.and_eq_true, decide_eq_true_eq]
  omega

theorem ofPair_ne_nul {first second : Nat} (low : isLow second = true) :
    ofPair first second ≠ Char.ofNat 0 := by
  intro nul
  cases high : isHigh first with
  | true =>
      have same := congrArg Char.toNat nul
      rw [toNat_ofPair high low] at same
      have zero : (Char.ofNat 0).toNat = 0 := rfl
      omega
  | false =>
      rw [ofPair, high, if_neg Bool.false_ne_true] at nul
      exact absurd nul (by decide)

theorem eq_zero_of_ofUnits {unit : Nat} {units : List Nat}
    (nul : (ofUnits (unit :: units)).head? = some (Char.ofNat 0)) : unit = 0 := by
  cases units with
  | nil => exact eq_zero_of_charOfCode (Option.some.inj nul)
  | cons second units =>
      rw [ofUnits] at nul
      split at nul
      · rename_i pair
        rw [Bool.and_eq_true] at pair
        exact absurd (Option.some.inj nul) (ofPair_ne_nul pair.2)
      · exact eq_zero_of_charOfCode (Option.some.inj nul)

theorem ofUnits_ne_nil (unit : Nat) (units : List Nat) :
    ofUnits (unit :: units) ≠ [] := by
  cases units with
  | nil => nofun
  | cons second units =>
      rw [ofUnits]
      split
      · nofun
      · nofun

theorem startsWith_of_read {body : Text}
    (starts : (Text.ofChars (read .littleEndian body)).startsWith [0] = true) :
    body.startsWith [0, 0] = true := by
  rw [startsWith_iff] at starts
  match body with
  | [] => simp [read, units, ofUnits] at starts
  | [byte] =>
      have replaced : some Utf8.replacement = some (Char.ofNat 0) := starts
      exact absurd replaced (by decide)
  | first :: second :: rest =>
      rw [read, units] at starts
      rw [List.head?_append_of_ne_nil _ (ofUnits_ne_nil _ _)] at starts
      have zero := eq_zero_of_ofUnits starts
      rw [ByteOrder.unit16] at zero
      have first_zero : first = 0 :=
        UInt8.toNat_inj.mp (by change first.toNat = 0; omega)
      have second_zero : second = 0 :=
        UInt8.toNat_inj.mp (by change second.toNat = 0; omega)
      rw [first_zero, second_zero]
      rfl

end Utf16

namespace Utf32

theorem read_write (order : ByteOrder) (characters : List Char) :
    read order (write order characters) = characters := by
  induction characters with
  | nil => rfl
  | cons character characters ih =>
      have bound : character.toNat < 4294967296 :=
        Nat.lt_trans (Utf8.toNat_lt character) (by decide)
      obtain ⟨first, second, third, fourth, bytes, same⟩ := order.unit32_bytes32 bound
      rw [write, List.flatMap_cons, bytes]
      rw [List.cons_append, List.cons_append, List.cons_append, List.cons_append,
        List.nil_append, read, same, charOfCode_toNat]
      exact congrArg (character :: ·) ih

end Utf32

end Lineup
