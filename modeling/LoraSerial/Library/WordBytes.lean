import Mathlib.Algebra.Group.Nat.Defs
import Mathlib.Data.List.GetD

/-!
Owns the big-endian byte view of 64-bit words: `wordByte` reads one byte, most
significant first, `storeBe` lists a prefix of them and `loadBe` assembles eight.
A word is determined by its bytes, and the bitwise operations act on each byte
separately.
-/

namespace LoraSerial.Library.WordBytes

/-- Byte `index` of a word; byte 0 is the most significant. -/
def wordByte (word : UInt64) (index : Nat) : UInt8 :=
  (word >>> UInt64.ofNat (8 * (7 - index))).toUInt8

/-- The first `count` bytes of a word. -/
def storeBe (count : Nat) (word : UInt64) : List UInt8 :=
  (List.range count).map (wordByte word)

/-- The word whose bytes are the given ones. -/
def loadBe (bytes : List UInt8) : UInt64 :=
  bytes.foldl (fun word byte => (word <<< 8) ||| byte.toUInt64) 0

@[simp] theorem length_storeBe (count : Nat) (word : UInt64) :
    (storeBe count word).length = count := by
  simp [storeBe]

theorem getElem_storeBe (count : Nat) (word : UInt64) (index : Nat)
    (below : index < (storeBe count word).length) :
    (storeBe count word)[index] = wordByte word index := by
  simp [storeBe]

theorem wordByte_xor (left right : UInt64) (index : Nat) :
    wordByte (left ^^^ right) index = wordByte left index ^^^ wordByte right index := by
  simp only [wordByte, UInt64.shiftRight_xor, UInt64.toUInt8_xor]

theorem wordByte_and (left right : UInt64) (index : Nat) :
    wordByte (left &&& right) index = wordByte left index &&& wordByte right index := by
  simp only [wordByte, UInt64.shiftRight_and, UInt64.toUInt8_and]

theorem wordByte_or (left right : UInt64) (index : Nat) :
    wordByte (left ||| right) index = wordByte left index ||| wordByte right index := by
  simp only [wordByte, UInt64.shiftRight_or, UInt64.toUInt8_or]

theorem toNat_wordByte (word : UInt64) (index : Nat) :
    (wordByte word index).toNat = word.toNat / 2 ^ (8 * (7 - index)) % 256 := by
  have small : 8 * (7 - index) % 2 ^ 64 % 64 = 8 * (7 - index) := by omega
  simp only [wordByte, UInt64.toNat_toUInt8, UInt64.toNat_shiftRight, UInt64.toNat_ofNat',
    small, Nat.shiftRight_eq_div_pow]

/-- Shifting in one byte multiplies by 256 and adds it. -/
theorem toNat_shiftIn (word : UInt64) (byte : UInt8) :
    ((word <<< 8) ||| byte.toUInt64).toNat = (word.toNat * 256 + byte.toNat) % 2 ^ 64 := by
  have byteBelow : byte.toNat < 2 ^ 8 := byte.toNat_lt
  have shifted : (word <<< 8).toNat = (word.toNat % 2 ^ 56) <<< 8 := by
    rw [UInt64.toNat_shiftLeft]
    change word.toNat <<< 8 % 2 ^ 64 = _
    rw [Nat.shiftLeft_eq, Nat.shiftLeft_eq]
    omega
  rw [UInt64.toNat_or, shifted, UInt8.toNat_toUInt64,
    ← Nat.shiftLeft_add_eq_or_of_lt byteBelow, Nat.shiftLeft_eq]
  omega

theorem toNat_loadBe (b0 b1 b2 b3 b4 b5 b6 b7 : UInt8) :
    (loadBe [b0, b1, b2, b3, b4, b5, b6, b7]).toNat =
      b0.toNat * 2 ^ 56 + b1.toNat * 2 ^ 48 + b2.toNat * 2 ^ 40 + b3.toNat * 2 ^ 32 +
        b4.toNat * 2 ^ 24 + b5.toNat * 2 ^ 16 + b6.toNat * 2 ^ 8 + b7.toNat := by
  have below0 := b0.toNat_lt
  have below1 := b1.toNat_lt
  have below2 := b2.toNat_lt
  have below3 := b3.toNat_lt
  have below4 := b4.toNat_lt
  have below5 := b5.toNat_lt
  have below6 := b6.toNat_lt
  have below7 := b7.toNat_lt
  simp only [loadBe, List.foldl_cons, List.foldl_nil, toNat_shiftIn, UInt64.toNat_zero]
  omega

private theorem eight_of_length {bytes : List UInt8} (length : bytes.length = 8) :
    ∃ b0 b1 b2 b3 b4 b5 b6 b7, bytes = [b0, b1, b2, b3, b4, b5, b6, b7] := by
  match bytes, length with
  | [b0, b1, b2, b3, b4, b5, b6, b7], _ => exact ⟨b0, b1, b2, b3, b4, b5, b6, b7, rfl⟩

/-- Eight bytes assembled into a word are the bytes of that word. -/
theorem storeBe_loadBe {bytes : List UInt8} (length : bytes.length = 8) :
    storeBe 8 (loadBe bytes) = bytes := by
  obtain ⟨b0, b1, b2, b3, b4, b5, b6, b7, rfl⟩ := eight_of_length length
  have value := toNat_loadBe b0 b1 b2 b3 b4 b5 b6 b7
  have below0 := b0.toNat_lt
  have below1 := b1.toNat_lt
  have below2 := b2.toNat_lt
  have below3 := b3.toNat_lt
  have below4 := b4.toNat_lt
  have below5 := b5.toNat_lt
  have below6 := b6.toNat_lt
  have below7 := b7.toNat_lt
  change [wordByte _ 0, wordByte _ 1, wordByte _ 2, wordByte _ 3, wordByte _ 4, wordByte _ 5,
    wordByte _ 6, wordByte _ 7] = _
  simp only [List.cons.injEq, and_true, ← UInt8.toNat_inj, toNat_wordByte, value]
  refine ⟨?_, ?_, ?_, ?_, ?_, ?_, ?_, ?_⟩ <;> omega

/-- A word is assembled from its own bytes. -/
theorem loadBe_storeBe (word : UInt64) : loadBe (storeBe 8 word) = word := by
  have below := word.toNat_lt
  apply UInt64.toNat_inj.mp
  change (loadBe [wordByte word 0, wordByte word 1, wordByte word 2, wordByte word 3,
    wordByte word 4, wordByte word 5, wordByte word 6, wordByte word 7]).toNat = _
  simp only [toNat_loadBe, toNat_wordByte]
  omega

theorem wordByte_loadBe {bytes : List UInt8} (length : bytes.length = 8) (index : Nat)
    (below : index < 8) : wordByte (loadBe bytes) index = bytes[index] := by
  have stored := storeBe_loadBe length
  simp only [← getElem_storeBe 8 _ index (by simpa using below), stored]

/-- Words with the same bytes are equal. -/
theorem eq_of_wordByte_eq {left right : UInt64}
    (same : ∀ index, index < 8 → wordByte left index = wordByte right index) :
    left = right := by
  rw [← loadBe_storeBe left, ← loadBe_storeBe right]
  congr 1
  apply List.map_congr_left
  intro index member
  exact same index (List.mem_range.mp member)

end LoraSerial.Library.WordBytes
