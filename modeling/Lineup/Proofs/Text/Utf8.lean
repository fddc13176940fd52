import Mathlib.Data.List.Basic
import Lineup.Text.Utf8

/-!
# Well-formed text

A text is well formed when it spells characters. The bytes of a character are a byte
that starts it and bytes that continue it, so a well-formed text falls apart into
well-formed texts wherever a byte that starts a character, or the end, comes next.
Reading accepts exactly the bytes that writing gives, so the texts that are found well
formed are these.
-/

namespace Lineup

namespace Utf8

/-- The bytes of a character: one that starts it, and others that continue it. They are
read as the character again, whatever follows. -/
structure Spells (character : Char) (lead : UInt8) (more : Text) : Prop where
  starts : isContinuation lead = false
  continues : ∀ byte ∈ more, isContinuation byte = true
  alone : lead < 0x80 → more = []
  reads : ∀ rest, read? lead (more ++ rest) = some (character, more.length)

theorem isContinuation_iff (byte : UInt8) :
    isContinuation byte = true ↔ 0x80 ≤ byte.toNat ∧ byte.toNat ≤ 0xbf := by
  simp [isContinuation, UInt8.le_iff_toNat_le]

theorem isContinuation_of_ascii {byte : UInt8} (ascii : byte < 0x80) :
    isContinuation byte = false := by
  rw [Bool.eq_false_iff, Ne, isContinuation_iff]
  rw [UInt8.lt_iff_toNat_lt] at ascii
  exact fun continues => Nat.not_lt.mpr continues.1 ascii

theorem toNat_ofNat {value : Nat} (small : value < 256) :
    (UInt8.ofNat value).toNat = value :=
  UInt8.toNat_ofNat_of_lt' small

theorem isContinuation_tail (bits : Nat) :
    isContinuation (UInt8.ofNat (bits % 64 + 128)) = true := by
  rw [isContinuation_iff, toNat_ofNat (by omega)]
  omega

theorem payload_tail (bits : Nat) :
    payload (UInt8.ofNat (bits % 64 + 128)) = bits % 64 := by
  rw [payload, toNat_ofNat (by omega)]
  omega

theorem isContinuation_lead {value : Nat} (high : 192 ≤ value) (small : value < 256) :
    isContinuation (UInt8.ofNat value) = false := by
  rw [Bool.eq_false_iff, Ne, isContinuation_iff, toNat_ofNat small]
  omega

theorem not_ascii_of_lead {value : Nat} (high : 192 ≤ value) (small : value < 256) :
    ¬ UInt8.ofNat value < 0x80 := by
  rw [UInt8.lt_iff_toNat_lt, toNat_ofNat small]
  exact Nat.not_lt.mpr (Nat.le_trans (by decide) high)

theorem isScalar_toNat (character : Char) : isScalar character.toNat = true := by
  have valid : character.toNat < 0xd800 ∨ 0xdfff < character.toNat
      ∧ character.toNat < 0x110000 :=
    character.valid
  simp only [isScalar, Bool.or_eq_true, Bool.and_eq_true, decide_eq_true_eq]
  omega

theorem toNat_lt (character : Char) : character.toNat < 0x110000 := by
  have scalar := isScalar_toNat character
  simp only [isScalar, Bool.or_eq_true, Bool.and_eq_true, decide_eq_true_eq] at scalar
  omega

theorem toNat_charOfNat {code : Nat} (scalar : isScalar code = true) :
    (Char.ofNat code).toNat = code := by
  have valid : code.isValidChar := by
    simp only [isScalar, Bool.or_eq_true, Bool.and_eq_true, decide_eq_true_eq] at scalar
    rw [Nat.isValidChar]
    omega
  rw [Char.ofNat, dif_pos valid]
  rfl

section Widths

variable {character : Char}

theorem spells_one (small : character.toNat ≤ 127) :
    Spells character (UInt8.ofNat character.toNat) [] where
  starts := by
    rw [Bool.eq_false_iff, Ne, isContinuation_iff, toNat_ofNat (by omega)]
    omega
  continues _ member := nomatch member
  alone _ := rfl
  reads rest := by
    have ascii : UInt8.ofNat character.toNat < 0x80 := by
      rw [UInt8.lt_iff_toNat_lt, toNat_ofNat (by omega)]
      exact Nat.lt_succ_of_le small
    unfold read?
    rw [if_pos ascii, toNat_ofNat (by omega), Char.ofNat_toNat]
    rfl

theorem spells_two (large : 127 < character.toNat) (small : character.toNat ≤ 2047) :
    Spells character (UInt8.ofNat (character.toNat / 64 % 32 + 192))
      [UInt8.ofNat (character.toNat % 64 + 128)] where
  starts := isContinuation_lead (by omega) (by omega)
  continues := List.forall_mem_singleton.mpr (isContinuation_tail _)
  alone ascii := absurd ascii (not_ascii_of_lead (by omega) (by omega))
  reads rest := by
    have lead : (UInt8.ofNat (character.toNat / 64 % 32 + 192)).toNat
        = character.toNat / 64 % 32 + 192 := toNat_ofNat (by omega)
    have code : (character.toNat / 64 % 32 + 192) % 32 * 64 + character.toNat % 64
        = character.toNat := by omega
    simp only [read?, UInt8.lt_iff_toNat_lt, lead, UInt8.reduceToNat, List.cons_append,
      isContinuation_tail, if_true, payload_tail, code, Char.ofNat_toNat]
    rw [if_neg (by omega), if_neg (by omega), if_pos (by omega)]
    rfl

theorem spells_three (large : 2047 < character.toNat)
    (small : character.toNat ≤ 65535) :
    Spells character (UInt8.ofNat (character.toNat / 4096 % 16 + 224))
      [UInt8.ofNat (character.toNat / 64 % 64 + 128),
        UInt8.ofNat (character.toNat % 64 + 128)] where
  starts := isContinuation_lead (by omega) (by omega)
  continues := List.forall_mem_cons.mpr
    ⟨isContinuation_tail _, List.forall_mem_singleton.mpr (isContinuation_tail _)⟩
  alone ascii := absurd ascii (not_ascii_of_lead (by omega) (by omega))
  reads rest := by
    have lead : (UInt8.ofNat (character.toNat / 4096 % 16 + 224)).toNat
        = character.toNat / 4096 % 16 + 224 := toNat_ofNat (by omega)
    have code : (character.toNat / 4096 % 16 + 224) % 16 * 4096
        + character.toNat / 64 % 64 * 64
        + character.toNat % 64 = character.toNat := by omega
    have long : 0x800 ≤ character.toNat := large
    simp only [read?, UInt8.lt_iff_toNat_lt, lead, UInt8.reduceToNat, List.cons_append,
      isContinuation_tail, payload_tail, code, isScalar_toNat, Char.ofNat_toNat, long,
      decide_true, Bool.and_self, if_true]
    rw [if_neg (by omega), if_neg (by omega), if_neg (by omega), if_pos (by omega)]
    rfl

theorem spells_four (large : 65535 < character.toNat) :
    Spells character (UInt8.ofNat (character.toNat / 262144 % 8 + 240))
      [UInt8.ofNat (character.toNat / 4096 % 64 + 128),
        UInt8.ofNat (character.toNat / 64 % 64 + 128),
        UInt8.ofNat (character.toNat % 64 + 128)] where
  starts := isContinuation_lead (by omega) (by omega)
  continues := List.forall_mem_cons.mpr ⟨isContinuation_tail _, List.forall_mem_cons.mpr
    ⟨isContinuation_tail _, List.forall_mem_singleton.mpr (isContinuation_tail _)⟩⟩
  alone ascii := absurd ascii (not_ascii_of_lead (by omega) (by omega))
  reads rest := by
    have small := toNat_lt character
    have lead : (UInt8.ofNat (character.toNat / 262144 % 8 + 240)).toNat
        = character.toNat / 262144 % 8 + 240 := toNat_ofNat (by omega)
    have code : (character.toNat / 262144 % 8 + 240) % 8 * 262144
        + character.toNat / 4096 % 64 * 4096 + character.toNat / 64 % 64 * 64
        + character.toNat % 64 = character.toNat := by omega
    have long : 0x10000 ≤ character.toNat := large
    simp only [read?, UInt8.lt_iff_toNat_lt, lead, UInt8.reduceToNat, List.cons_append,
      isContinuation_tail, payload_tail, code, isScalar_toNat, Char.ofNat_toNat, long,
      decide_true, Bool.and_self, if_true]
    rw [if_neg (by omega), if_neg (by omega), if_neg (by omega), if_neg (by omega),
      if_pos (by omega)]
    rfl

end Widths

theorem write_eq (character : Char) : write character =
    if character.toNat ≤ 127 then [UInt8.ofNat character.toNat]
    else if character.toNat ≤ 2047 then
      [UInt8.ofNat (character.toNat / 64 % 32 + 192),
        UInt8.ofNat (character.toNat % 64 + 128)]
    else if character.toNat ≤ 65535 then
      [UInt8.ofNat (character.toNat / 4096 % 16 + 224),
        UInt8.ofNat (character.toNat / 64 % 64 + 128),
        UInt8.ofNat (character.toNat % 64 + 128)]
    else
      [UInt8.ofNat (character.toNat / 262144 % 8 + 240),
        UInt8.ofNat (character.toNat / 4096 % 64 + 128),
        UInt8.ofNat (character.toNat / 64 % 64 + 128),
        UInt8.ofNat (character.toNat % 64 + 128)] :=
  rfl

/-- Every character is spelled by its bytes. -/
theorem write_spells (character : Char) :
    ∃ lead more, write character = lead :: more ∧ Spells character lead more := by
  rw [write_eq]
  split
  · exact ⟨_, _, rfl, spells_one ‹_›⟩
  split
  · exact ⟨_, _, rfl, spells_two (by omega) ‹_›⟩
  split
  · exact ⟨_, _, rfl, spells_three (by omega) ‹_›⟩
  · exact ⟨_, _, rfl, spells_four (by omega)⟩

theorem read_ascii {lead : UInt8} (low : lead < 0x80) (rest : Text) :
    read lead rest = (Char.ofNat lead.toNat, 0) := by
  simp [read, read?, low]

theorem Spells.read {character : Char} {lead : UInt8} {more : Text}
    (spells : Spells character lead more) (rest : Text) :
    read lead (more ++ rest) = (character, more.length) := by
  rw [Utf8.read, spells.reads, Option.getD_some]

section Reading

variable {lead second third fourth : UInt8} {code : Nat}

theorem ofNat_eq (byte : UInt8) {value : Nat} (same : value = byte.toNat) :
    UInt8.ofNat value = byte := by
  rw [same, UInt8.ofNat_toNat]

theorem toNat_continuation {byte : UInt8} (continues : isContinuation byte = true) :
    byte.toNat = payload byte + 128 ∧ payload byte < 64 := by
  rw [isContinuation_iff] at continues
  rw [payload]
  omega

theorem write_of_one (ascii : lead < 0x80) :
    write (Char.ofNat lead.toNat) = [lead] := by
  simp only [UInt8.lt_iff_toNat_lt, UInt8.reduceToNat] at ascii
  have number : (Char.ofNat lead.toNat).toNat = lead.toNat :=
    toNat_charOfNat (by simp only [isScalar, Bool.or_eq_true, decide_eq_true_eq]; omega)
  rw [write_eq, number, if_pos (by omega), ofNat_eq lead rfl]

theorem write_of_two (low : ¬ lead < 0xc2) (high : lead < 0xe0)
    (continues : isContinuation second = true)
    (is : code = lead.toNat % 32 * 64 + payload second) :
    write (Char.ofNat code) = [lead, second] := by
  simp only [UInt8.lt_iff_toNat_lt, UInt8.reduceToNat] at low high
  obtain ⟨tail, bound⟩ := toNat_continuation continues
  have number : (Char.ofNat code).toNat = code :=
    toNat_charOfNat (by simp only [isScalar, Bool.or_eq_true, decide_eq_true_eq]; omega)
  rw [write_eq, number, if_neg (by omega), if_pos (by omega), ofNat_eq lead (by omega),
    ofNat_eq second (by omega)]

theorem write_of_three (low : ¬ lead < 0xe0) (high : lead < 0xf0)
    (continues : isContinuation second = true) (again : isContinuation third = true)
    (large : 0x800 ≤ code) (scalar : isScalar code = true)
    (is : code = lead.toNat % 16 * 4096 + payload second * 64 + payload third) :
    write (Char.ofNat code) = [lead, second, third] := by
  simp only [UInt8.lt_iff_toNat_lt, UInt8.reduceToNat] at low high
  obtain ⟨middle, middleBound⟩ := toNat_continuation continues
  obtain ⟨tail, bound⟩ := toNat_continuation again
  rw [write_eq, toNat_charOfNat scalar, if_neg (by omega), if_neg (by omega),
    if_pos (by omega), ofNat_eq lead (by omega), ofNat_eq second (by omega),
    ofNat_eq third (by omega)]

theorem write_of_four (low : ¬ lead < 0xf0) (high : lead < 0xf5)
    (continues : isContinuation second = true) (again : isContinuation third = true)
    (last : isContinuation fourth = true) (large : 0x10000 ≤ code)
    (scalar : isScalar code = true)
    (is : code = lead.toNat % 8 * 262144 + payload second * 4096 + payload third * 64
      + payload fourth) :
    write (Char.ofNat code) = [lead, second, third, fourth] := by
  simp only [UInt8.lt_iff_toNat_lt, UInt8.reduceToNat] at low high
  obtain ⟨upper, upperBound⟩ := toNat_continuation continues
  obtain ⟨middle, middleBound⟩ := toNat_continuation again
  obtain ⟨tail, bound⟩ := toNat_continuation last
  rw [write_eq, toNat_charOfNat scalar, if_neg (by omega), if_neg (by omega),
    if_neg (by omega), ofNat_eq lead (by omega), ofNat_eq second (by omega),
    ofNat_eq third (by omega), ofNat_eq fourth (by omega)]

theorem write_of_read? {rest : Text} {character : Char} {width : Nat} :
    read? lead rest = some (character, width) →
      ∃ more others, rest = more ++ others ∧ more.length = width
        ∧ write character = lead :: more := by
  fun_cases read? lead rest with
  | case1 rest ascii =>
      intro reads
      cases reads
      exact ⟨[], rest, rfl, rfl, write_of_one ascii⟩
  | case3 _ low high second tail continues =>
      intro reads
      cases reads
      exact ⟨[second], tail, rfl, rfl, write_of_two low high continues rfl⟩
  | case6 _ _ low high second third tail code accepted =>
      intro reads
      cases reads
      simp only [Bool.and_eq_true, decide_eq_true_eq] at accepted
      obtain ⟨⟨⟨continues, again⟩, large⟩, scalar⟩ := accepted
      exact ⟨[second, third], tail, rfl, rfl,
        write_of_three low high continues again large scalar rfl⟩
  | case9 _ _ _ low high second third fourth tail code accepted =>
      intro reads
      cases reads
      simp only [Bool.and_eq_true, decide_eq_true_eq] at accepted
      obtain ⟨⟨⟨⟨continues, again⟩, last⟩, large⟩, scalar⟩ := accepted
      exact ⟨[second, third, fourth], tail, rfl, rfl,
        write_of_four low high continues again last large scalar rfl⟩
  | _ =>
      intro reads
      cases reads

/-- The further bytes of a character that is read continue it. -/
theorem continues_read (lead : UInt8) (rest : Text) :
    ∀ byte ∈ rest.take (read lead rest).2, isContinuation byte = true := by
  rw [read]
  cases reads : read? lead rest with
  | none => simp
  | some found =>
      obtain ⟨more, others, rfl, width, bytes⟩ := write_of_read? reads
      obtain ⟨first, tail, spelled, spells⟩ := write_spells found.1
      cases bytes.symm.trans spelled
      rw [Option.getD_some, ← width, List.take_left]
      exact spells.continues

theorem lt_of_read? {rest : Text} {found : Char × Nat}
    (reads : read? lead rest = some found) :
    lead < 0xf5 := by
  apply Decidable.byContradiction
  intro large
  have outside {bound : UInt8} (small : bound ≤ 0xf5) : ¬ lead < bound :=
    fun less => large (UInt8.lt_of_lt_of_le less small)
  unfold read? at reads
  rw [if_neg (outside (by decide)), if_neg (outside (by decide)),
    if_neg (outside (by decide)), if_neg (outside (by decide)), if_neg large] at reads
  cases reads

end Reading

end Utf8

namespace Text

open Utf8 (Spells write_spells isContinuation)

theorem ofChars_cons (character : Char) (characters : List Char) :
    ofChars (character :: characters) = Utf8.write character ++ ofChars characters :=
      rfl

theorem ofChars_append (characters others : List Char) :
    ofChars (characters ++ others) = ofChars characters ++ ofChars others :=
      List.flatMap_append

theorem charsFrom_append (more rest : Text) :
    charsFrom more.length (more ++ rest) = chars rest := by
  induction more with
  | nil => rfl
  | cons byte more ih => rw [List.length_cons, List.cons_append, charsFrom, ih]

/-- The characters that a text was made of are read from it. -/
theorem chars_ofChars (characters : List Char) :
    chars (ofChars characters) = characters := by
  induction characters with
  | nil => rfl
  | cons character characters ih =>
      obtain ⟨lead, more, bytes, spells⟩ := write_spells character
      rw [ofChars_cons, bytes, List.cons_append, chars, charsFrom, spells.read]
      exact congrArg (character :: ·) ((charsFrom_append more _).trans ih)

/-- A text starts with the bytes of a character exactly when this is its first
character. -/
theorem startsWith_write_iff (character : Char) (characters : List Char) :
    (ofChars characters).startsWith (Utf8.write character) = true
      ↔ characters.head? = some character := by
  rw [startsWith, List.isPrefixOf_iff_prefix]
  constructor
  · rintro ⟨rest, spelled⟩
    obtain ⟨lead, more, bytes, spells⟩ := write_spells character
    rw [← chars_ofChars characters, ← spelled, bytes, List.cons_append, chars,
      charsFrom, spells.read]
    rfl
  · intro first
    obtain ⟨rest, rfl⟩ := List.head?_eq_some_iff.mp first
    rw [ofChars_cons]
    exact List.prefix_append _ _

/-- A text that spells characters. -/
def WellFormed (text : Text) : Prop :=
  ∃ characters, text = ofChars characters

/-- No byte of the text continues a character that started before it. -/
def StartsAnew (text : Text) : Prop :=
  ∀ byte ∈ text.head?, isContinuation byte = false

/-- Behind every ASCII character another character starts. -/
def Orderly (text : Text) : Prop :=
  ∀ before byte after, text = before ++ byte :: after → byte < 0x80 → StartsAnew after

theorem Orderly.tail {byte : UInt8} {rest : Text} (orderly : Orderly (byte :: rest)) :
    Orderly rest :=
  fun before other after same => orderly (byte :: before) other after (congrArg _ same)

theorem Orderly.head {byte : UInt8} {rest : Text} (orderly : Orderly (byte :: rest))
    (ascii : byte < 0x80) : StartsAnew rest :=
  orderly [] byte rest rfl ascii

namespace WellFormed

theorem nil : WellFormed [] := ⟨[], rfl⟩

theorem append {text other : Text} (formed : WellFormed text)
    (behind : WellFormed other) :
    WellFormed (text ++ other) := by
  obtain ⟨characters, rfl⟩ := formed
  obtain ⟨others, rfl⟩ := behind
  exact ⟨characters ++ others, (ofChars_append _ _).symm⟩

theorem ofChars_chars {text : Text} (formed : WellFormed text) :
    ofChars (chars text) = text := by
  obtain ⟨characters, rfl⟩ := formed
  rw [chars_ofChars]

/-- A well-formed text starts with the bytes of a character. -/
theorem uncons {byte : UInt8} {rest : Text} (formed : WellFormed (byte :: rest)) :
    ∃ character more others, Spells character byte more ∧ rest = more ++ others
      ∧ WellFormed others := by
  obtain ⟨characters, spelled⟩ := formed
  cases characters with
  | nil => cases spelled
  | cons character characters =>
      obtain ⟨lead, more, bytes, spells⟩ := write_spells character
      rw [ofChars_cons, bytes] at spelled
      obtain ⟨rfl, same⟩ := List.cons.inj spelled
      exact ⟨character, more, _, spells, same, characters, rfl⟩

/-- The bytes from `0xf5` on stand in no well-formed text. -/
theorem lt_of_mem {text : Text} (formed : WellFormed text) :
    ∀ byte ∈ text, byte < 0xf5 := by
  obtain ⟨characters, rfl⟩ := formed
  intro byte member
  obtain ⟨character, -, within⟩ := List.mem_flatMap.mp member
  obtain ⟨lead, more, bytes, spells⟩ := write_spells character
  rw [bytes, List.mem_cons] at within
  rcases within with rfl | within
  · exact Utf8.lt_of_read? (spells.reads [])
  · have continues := spells.continues byte within
    rw [Utf8.isContinuation_iff] at continues
    rw [UInt8.lt_iff_toNat_lt]
    exact Nat.lt_of_le_of_lt continues.2 (by decide)

theorem startsAnew {text : Text} (formed : WellFormed text) : StartsAnew text := by
  intro byte member
  obtain ⟨rest, rfl⟩ := List.head?_eq_some_iff.mp member
  obtain ⟨character, more, others, spells, -, -⟩ := formed.uncons
  exact spells.starts

/-- A well-formed text falls apart where a character starts. -/
theorem split {before after : Text} (formed : WellFormed (before ++ after))
    (anew : StartsAnew after) : WellFormed before ∧ WellFormed after := by
  obtain ⟨characters, spelled⟩ := formed
  induction characters generalizing before with
  | nil =>
      obtain ⟨rfl, rfl⟩ := List.append_eq_nil_iff.mp spelled
      exact ⟨nil, nil⟩
  | cons character characters ih =>
      cases before with
      | nil => exact ⟨nil, _, spelled⟩
      | cons first before =>
          obtain ⟨lead, more, bytes, spells⟩ := write_spells character
          rw [ofChars_cons, bytes, List.cons_append, List.cons_append,
            List.cons.injEq] at spelled
          obtain ⟨rfl, same⟩ := spelled
          -- The text is either cut inside of the character or behind it.
          rcases List.append_eq_append_iff.mp
            same with ⟨gap, rfl, rest⟩ | ⟨later, rfl, rest⟩
          · cases gap with
            | nil =>
                rw [List.append_nil] at bytes
                have remains : [] ++ after = ofChars characters := rest
                obtain ⟨-, formed⟩ := ih remains
                exact ⟨⟨[character], by rw [ofChars_cons, bytes]; simp [ofChars]⟩,
                  formed⟩
            | cons byte gap =>
                have inside := anew byte (by rw [rest]; rfl)
                rw [spells.continues byte (by simp)] at inside
                cases inside
          · obtain ⟨formed, others⟩ := ih rest.symm
            refine ⟨?_, others⟩
            rw [← List.cons_append, ← bytes]
            exact WellFormed.append ⟨[character], by simp [ofChars]⟩ formed

theorem orderly {text : Text} (formed : WellFormed text) : Orderly text := by
  obtain ⟨characters, rfl⟩ := formed
  intro before byte after spelled ascii
  induction characters generalizing before with
  | nil => simp [ofChars] at spelled
  | cons character characters ih =>
      obtain ⟨lead, more, bytes, spells⟩ := write_spells character
      rw [ofChars_cons, bytes] at spelled
      cases before with
      | nil =>
          obtain ⟨rfl, same⟩ := List.cons.inj spelled
          rw [spells.alone ascii] at same
          exact startsAnew ⟨characters, same.symm⟩
      | cons first before =>
          obtain ⟨-, same⟩ := List.cons.inj spelled
          rcases List.append_eq_append_iff.mp
            same with ⟨later, rfl, rest⟩ | ⟨gap, rfl, rest⟩
          · exact ih later rest
          · cases gap with
            | nil => exact ih [] rest.symm
            | cons other gap =>
                obtain ⟨rfl, -⟩ := List.cons.inj rest
                have inside := spells.continues byte (by simp)
                rw [Utf8.isContinuation_iff] at inside
                exact absurd (UInt8.lt_iff_toNat_lt.mp ascii) (Nat.not_lt.mpr inside.1)

end WellFormed

/-- What is found well formed spells characters, behind the bytes already read. -/
theorem wellFormed_drop {covered : Nat} {text : Text}
    (formed : isWellFormedFrom covered text = true) :
    WellFormed (text.drop covered) := by
  induction text generalizing covered with
  | nil =>
      rw [List.drop_nil]
      exact WellFormed.nil
  | cons byte rest ih =>
      rw [isWellFormedFrom.eq_def] at formed
      cases covered with
      | succ more => exact ih formed
      | zero =>
          simp only at formed
          cases reads : Utf8.read? byte rest with
          | none =>
              rw [reads] at formed
              cases formed
          | some found =>
              obtain ⟨character, width⟩ := found
              rw [reads] at formed
              obtain ⟨more, others, rfl, rfl, bytes⟩ := Utf8.write_of_read? reads
              have later := ih formed
              rw [List.drop_left] at later
              rw [List.drop_zero, ← List.cons_append, ← bytes]
              exact WellFormed.append ⟨[character], by simp [ofChars]⟩ later

theorem isWellFormedFrom_append (more rest : Text) :
    isWellFormedFrom more.length (more ++ rest) = isWellFormed rest := by
  induction more with
  | nil => rfl
  | cons byte more ih => rw [List.length_cons, List.cons_append, isWellFormedFrom, ih]

/-- The texts that are found well formed are those that spell characters. -/
theorem isWellFormed_iff {text : Text} :
    text.isWellFormed = true ↔ WellFormed text := by
  constructor
  · intro formed
    exact wellFormed_drop formed
  · rintro ⟨characters, rfl⟩
    induction characters with
    | nil => rfl
    | cons character characters ih =>
        obtain ⟨lead, more, bytes, spells⟩ := write_spells character
        rw [ofChars_cons, bytes, List.cons_append, isWellFormed, isWellFormedFrom,
          spells.reads]
        exact (isWellFormedFrom_append more _).trans ih

theorem mem_charsFrom_of_ascii {byte : UInt8} {text : Text} {covered : Nat}
    (ascii : byte < 0x80) (member : byte ∈ text)
    (continues : ∀ other ∈ text.take covered, isContinuation other = true) :
    Char.ofNat byte.toNat ∈ charsFrom covered text := by
  induction text generalizing covered with
  | nil => cases member
  | cons first rest ih =>
      cases covered with
      | succ more =>
          rw [List.take_succ_cons, List.forall_mem_cons] at continues
          rcases List.mem_cons.mp member with rfl | later
          · rw [Utf8.isContinuation_of_ascii ascii] at continues
            cases continues.1
          · exact ih later continues.2
      | zero =>
          rw [charsFrom, List.mem_cons]
          rcases List.mem_cons.mp member with rfl | later
          · left
            rw [Utf8.read_ascii ascii]
          · right
            exact ih later (Utf8.continues_read first rest)

theorem mem_chars_of_ascii {byte : UInt8} {text : Text} (ascii : byte < 0x80)
    (member : byte ∈ text) :
    Char.ofNat byte.toNat ∈ chars text :=
  mem_charsFrom_of_ascii ascii member (by simp)

end Text

end Lineup
