import LoraSerial.Library.WordBytes

/-!
Owns the Ascon-128 sponge of the link layer: the permutation, initialization,
associated-data absorption, the encrypt and decrypt drivers and the tag compare.
The main result is that decryption under the same key, nonce and associated data
returns the plaintext. Does not own any statement about forgery.
-/

namespace LoraSerial.LinkLayer

open Library.WordBytes

abbrev Bytes := List UInt8

/-- A 16-byte Ascon-128 key. -/
abbrev Key := Vector UInt8 16

/-! ## Permutation -/

/-- Rotate right by `n`, for `0 < n < 64`. -/
def asconRotr (x n : UInt64) : UInt64 :=
  (x >>> n) ||| (x <<< (64 - n))

/-- Load up to eight bytes into the top of a word; the rest is zero. -/
def asconLoadBe (b : Bytes) : UInt64 :=
  loadBe (b ++ List.replicate (8 - b.length) 0)

/-- Store the top `n` bytes of a word. -/
def asconStoreBe (n : Nat) (x : UInt64) : Bytes :=
  storeBe n x

structure AsconState where
  x0 : UInt64
  x1 : UInt64
  x2 : UInt64
  x3 : UInt64
  x4 : UInt64
deriving DecidableEq, Repr

def asconRc : List UInt64 :=
  [0xf0, 0xe1, 0xd2, 0xc3, 0xb4, 0xa5, 0x96, 0x87, 0x78, 0x69, 0x5a, 0x4b]

/-- One round: constant addition, bitsliced S-box, linear diffusion. -/
def asconRound (s : AsconState) (c : UInt64) : AsconState :=
  let x2 := s.x2 ^^^ c
  let x0 := s.x0 ^^^ s.x4
  let x4 := s.x4 ^^^ s.x3
  let x2 := x2 ^^^ s.x1
  let x1 := s.x1
  let x3 := s.x3
  let t0 := ~~~x0 &&& x1
  let t1 := ~~~x1 &&& x2
  let t2 := ~~~x2 &&& x3
  let t3 := ~~~x3 &&& x4
  let t4 := ~~~x4 &&& x0
  let x0 := x0 ^^^ t1
  let x1 := x1 ^^^ t2
  let x2 := x2 ^^^ t3
  let x3 := x3 ^^^ t4
  let x4 := x4 ^^^ t0
  let x1 := x1 ^^^ x0
  let x0 := x0 ^^^ x4
  let x3 := x3 ^^^ x2
  let x2 := ~~~x2
  { x0 := x0 ^^^ (asconRotr x0 19 ^^^ asconRotr x0 28)
    x1 := x1 ^^^ (asconRotr x1 61 ^^^ asconRotr x1 39)
    x2 := x2 ^^^ (asconRotr x2 1 ^^^ asconRotr x2 6)
    x3 := x3 ^^^ (asconRotr x3 10 ^^^ asconRotr x3 17)
    x4 := x4 ^^^ (asconRotr x4 7 ^^^ asconRotr x4 41) }

/-- The 12-round permutation of initialization and finalization. -/
def asconP12 (s : AsconState) : AsconState :=
  asconRc.foldl asconRound s

/-- The 6-round permutation between data blocks. -/
def asconP6 (s : AsconState) : AsconState :=
  (asconRc.drop 6).foldl asconRound s

/-! ## Sponge -/

/-- Key words `K0` and `K1` of a 16-byte key. -/
def asconKeyWords (key : Key) : UInt64 × UInt64 :=
  (asconLoadBe (key.toList.take 8), asconLoadBe (key.toList.drop 8))

/-- State after absorbing IV, key and the 16-byte nonce `npub`. -/
def asconInit (key : Key) (npub : Bytes) : AsconState :=
  let k := asconKeyWords key
  let s := asconP12
    { x0 := 0x80400c0600000000, x1 := k.1, x2 := k.2
      x3 := asconLoadBe (npub.take 8), x4 := asconLoadBe (npub.drop 8) }
  { s with x3 := s.x3 ^^^ k.1, x4 := s.x4 ^^^ k.2 }

/-- Absorb `blocks` full blocks of associated data. -/
def asconAbsorbBlocks : Nat → AsconState → Bytes → AsconState
  | 0, s, _ => s
  | blocks + 1, s, ad =>
      asconAbsorbBlocks blocks (asconP6 { s with x0 := s.x0 ^^^ asconLoadBe (ad.take 8) })
        (ad.drop 8)

/-- Absorb the associated data and separate it from the message. -/
def asconAbsorbAd (s : AsconState) (ad : Bytes) : AsconState :=
  let s :=
    if 0 < ad.length then
      let s := asconAbsorbBlocks (ad.length / 8) s ad
      asconP6 { s with x0 := s.x0 ^^^ asconLoadBe (ad.drop (8 * (ad.length / 8)) ++ [0x80]) }
    else s
  { s with x4 := s.x4 ^^^ 1 }

/-- Squeeze out the 16-byte tag. -/
def asconFinal (s : AsconState) (key : Key) : Bytes :=
  let k := asconKeyWords key
  let s := asconP12 { s with x1 := s.x1 ^^^ k.1, x2 := s.x2 ^^^ k.2 }
  asconStoreBe 8 (s.x3 ^^^ k.1) ++ asconStoreBe 8 (s.x4 ^^^ k.2)

/-! ## Encrypt and decrypt -/

/-- State before the first message block. -/
def asconStart (key : Key) (npub ad : Bytes) : AsconState :=
  asconAbsorbAd (asconInit key npub) ad

/-- Encrypt `blocks` full blocks of plaintext. -/
def asconEncryptBlocks : Nat → AsconState → Bytes → AsconState × Bytes
  | 0, s, _ => (s, [])
  | blocks + 1, s, pt =>
      let x0 := s.x0 ^^^ asconLoadBe (pt.take 8)
      let rest := asconEncryptBlocks blocks (asconP6 { s with x0 := x0 }) (pt.drop 8)
      (rest.1, asconStoreBe 8 x0 ++ rest.2)

/-- Decrypt `blocks` full blocks of ciphertext. -/
def asconDecryptBlocks : Nat → AsconState → Bytes → AsconState × Bytes
  | 0, s, _ => (s, [])
  | blocks + 1, s, ct =>
      let c := asconLoadBe (ct.take 8)
      let rest := asconDecryptBlocks blocks (asconP6 { s with x0 := c }) (ct.drop 8)
      (rest.1, asconStoreBe 8 (s.x0 ^^^ c) ++ rest.2)

/-- Encrypt the padded last block and absorb it. -/
def asconEncryptLast (s : AsconState) (pt : Bytes) : AsconState × Bytes :=
  let x0 := s.x0 ^^^ asconLoadBe (pt ++ [0x80])
  ({ s with x0 := x0 }, asconStoreBe pt.length x0)

/-- Mask of the top `ctlen` bytes of a word. -/
def asconMask (ctlen : Nat) : UInt64 :=
  if ctlen = 0 then 0 else ~~~0 <<< UInt64.ofNat (8 * (8 - ctlen))

/-- Decrypt the last block and put ciphertext and padding back into the state. -/
def asconDecryptLast (s : AsconState) (ct : Bytes) : AsconState × Bytes :=
  let cword := asconLoadBe ct
  let mask := asconMask ct.length
  let x0 := (s.x0 &&& ~~~mask) ||| (cword &&& mask)
  let x0 := x0 ^^^ (0x80 <<< UInt64.ofNat (8 * (7 - ct.length)))
  ({ s with x0 := x0 }, asconStoreBe ct.length (s.x0 ^^^ cword))

/-- Encrypt a whole message: final state and ciphertext. -/
def asconEncryptMessage (s : AsconState) (pt : Bytes) : AsconState × Bytes :=
  let full := asconEncryptBlocks (pt.length / 8) s pt
  let last := asconEncryptLast full.1 (pt.drop (8 * (pt.length / 8)))
  (last.1, full.2 ++ last.2)

/-- Decrypt a whole message: final state and plaintext. -/
def asconDecryptMessage (s : AsconState) (ct : Bytes) : AsconState × Bytes :=
  let full := asconDecryptBlocks (ct.length / 8) s ct
  let last := asconDecryptLast full.1 (ct.drop (8 * (ct.length / 8)))
  (last.1, full.2 ++ last.2)

/-- Ciphertext and 16-byte tag. -/
def ascon128Encrypt (key : Key) (npub ad pt : Bytes) : Bytes × Bytes :=
  let message := asconEncryptMessage (asconStart key npub ad) pt
  (message.2, asconFinal message.1 key)

/-- The bytes of `tag` agree with the computed ones, compared without an early
exit. -/
def asconTagMatches (computed tag : Bytes) : Bool :=
  (List.zipWith (fun left right => left ^^^ right) computed tag).foldl
    (fun acc difference => acc ||| difference) 0 == 0

/-- The plaintext, when the tag verifies. -/
def ascon128Decrypt (key : Key) (npub ad ct tag : Bytes) : Option Bytes :=
  let message := asconDecryptMessage (asconStart key npub ad) ct
  if asconTagMatches (asconFinal message.1 key) tag then some message.2 else none

/-! ## Key derivation -/

/-- Absorb `blocks` full blocks into the derivation state. -/
def asconKdfBlocks : Nat → AsconState → Bytes → AsconState
  | 0, s, _ => s
  | blocks + 1, s, input =>
      asconKdfBlocks blocks (asconP12 { s with x0 := s.x0 ^^^ asconLoadBe (input.take 8) })
        (input.drop 8)

/-- Absorb under the "KDF16" IV, pad the last block, squeeze 16 bytes. -/
def asconKdf16 (input : Bytes) : Key :=
  let s := asconP12 { x0 := 0x4b44463136000000, x1 := 0, x2 := 0, x3 := 0, x4 := 0 }
  let s := asconKdfBlocks (input.length / 8) s input
  let s := asconP12
    { s with x0 := s.x0 ^^^ asconLoadBe (input.drop (8 * (input.length / 8)) ++ [0x80]) }
  ⟨(asconStoreBe 8 s.x0 ++ asconStoreBe 8 (asconP12 s).x0).toArray, by
    simp [asconStoreBe]⟩

/-! ## Decryption inverts encryption -/

@[simp] theorem length_asconStoreBe (n : Nat) (x : UInt64) : (asconStoreBe n x).length = n :=
  length_storeBe n x

theorem length_asconFinal (s : AsconState) (key : Key) : (asconFinal s key).length = 16 := by
  simp [asconFinal]

/-- Byte `index` of a loaded word: the source byte, or zero past the end. -/
theorem wordByte_asconLoadBe {b : Bytes} (short : b.length ≤ 8) {index : Nat}
    (below : index < 8) : wordByte (asconLoadBe b) index = b.getD index 0 := by
  have length : (b ++ List.replicate (8 - b.length) (0 : UInt8)).length = 8 := by
    simp
    omega
  rw [asconLoadBe, wordByte_loadBe length index below]
  by_cases inside : index < b.length
  · rw [List.getElem_append_left inside, List.getD_eq_getElem _ _ inside]
  · rw [List.getElem_append_right (by omega), List.getElem_replicate,
      List.getD_eq_default _ _ (by omega)]

theorem asconStoreBe_eq {n : Nat} {x : UInt64} {b : Bytes} (length : b.length = n)
    (same : ∀ index, index < n → wordByte x index = b.getD index 0) : asconStoreBe n x = b := by
  apply List.ext_getElem (by simpa using length.symm)
  intro index left right
  simp only [asconStoreBe, getElem_storeBe]
  rw [same index (by omega), List.getD_eq_getElem _ _ right]

theorem asconLoadBe_asconStoreBe (x : UInt64) : asconLoadBe (asconStoreBe 8 x) = x := by
  simp [asconLoadBe, asconStoreBe, loadBe_storeBe]

/-- One full block: the decrypted bytes are the plaintext block. -/
theorem asconStoreBe_cancel (x : UInt64) {b : Bytes} (length : b.length = 8) :
    asconStoreBe 8 (x ^^^ (x ^^^ asconLoadBe b)) = b := by
  apply asconStoreBe_eq length
  intro index below
  rw [wordByte_xor, wordByte_xor, wordByte_asconLoadBe (by omega) below,
    ← UInt8.xor_assoc, UInt8.xor_self, UInt8.zero_xor]

theorem length_asconEncryptBlocks (blocks : Nat) (s : AsconState) (pt : Bytes) :
    (asconEncryptBlocks blocks s pt).2.length = 8 * blocks := by
  induction blocks generalizing s pt with
  | zero => rfl
  | succ blocks inductionHypothesis =>
      simp only [asconEncryptBlocks, List.length_append, length_asconStoreBe,
        inductionHypothesis]
      omega

/-- The full blocks: same final state, and the plaintext blocks come back, also
when more ciphertext follows. -/
theorem asconDecryptBlocks_encryptBlocks (blocks : Nat) (s : AsconState) (pt rest : Bytes)
    (long : 8 * blocks ≤ pt.length) :
    asconDecryptBlocks blocks s ((asconEncryptBlocks blocks s pt).2 ++ rest) =
      ((asconEncryptBlocks blocks s pt).1, pt.take (8 * blocks)) := by
  induction blocks generalizing s pt with
  | zero => simp [asconDecryptBlocks, asconEncryptBlocks]
  | succ blocks inductionHypothesis =>
      have block : (pt.take 8).length = 8 := by
        rw [List.length_take]
        omega
      simp only [asconDecryptBlocks, asconEncryptBlocks]
      rw [List.append_assoc, List.take_left' (length_asconStoreBe 8 _),
        List.drop_left' (length_asconStoreBe 8 _), asconLoadBe_asconStoreBe,
        asconStoreBe_cancel s.x0 block,
        inductionHypothesis _ _ (by rw [List.length_drop]; omega)]
      simp only [Prod.mk.injEq, true_and]
      rw [show 8 * (blocks + 1) = 8 + 8 * blocks by omega, List.take_add]

/-- The mask keeps the first `ctlen` bytes. -/
theorem wordByte_asconMask :
    ∀ ctlen < 8, ∀ index < 8,
      wordByte (asconMask ctlen) index = if index < ctlen then 0xFF else 0 := by
  decide +kernel

theorem wordByte_not_asconMask :
    ∀ ctlen < 8, ∀ index < 8,
      wordByte (~~~asconMask ctlen) index = if index < ctlen then 0 else 0xFF := by
  decide +kernel

theorem wordByte_padBit :
    ∀ ctlen < 8, ∀ index < 8,
      wordByte (0x80 <<< UInt64.ofNat (8 * (7 - ctlen))) index =
        if index = ctlen then 0x80 else 0 := by
  decide +kernel

theorem getD_pad (pt : Bytes) (index : Nat) :
    (pt ++ [0x80]).getD index 0 =
      if index < pt.length then pt.getD index 0 else if index = pt.length then 0x80 else 0 := by
  by_cases inside : index < pt.length
  · rw [if_pos inside, List.getD_append _ _ _ _ inside]
  · rw [if_neg inside, List.getD_append_right _ _ _ _ (by omega)]
    by_cases last : index = pt.length
    · simp [last]
    · rw [if_neg last, List.getD_eq_default _ _ (by simp; omega)]

theorem all_and_byte (byte : UInt8) : byte &&& 0xFF = byte := by
  apply UInt8.toBitVec_inj.mp
  change byte.toBitVec &&& BitVec.allOnes 8 = byte.toBitVec
  exact BitVec.and_allOnes

/-- The last block: same final state, and its plaintext comes back. -/
theorem asconDecryptLast_encryptLast (s : AsconState) {pt : Bytes} (short : pt.length < 8) :
    asconDecryptLast s (asconEncryptLast s pt).2 = ((asconEncryptLast s pt).1, pt) := by
  have length : (asconStoreBe pt.length (s.x0 ^^^ asconLoadBe (pt ++ [0x80]))).length =
      pt.length := length_asconStoreBe _ _
  have padded : (pt ++ [(0x80 : UInt8)]).length ≤ 8 := by simp; omega
  have cipherByte : ∀ index, index < pt.length →
      wordByte (asconLoadBe (asconStoreBe pt.length (s.x0 ^^^ asconLoadBe (pt ++ [0x80]))))
        index = wordByte s.x0 index ^^^ pt.getD index 0 := by
    intro index below
    rw [wordByte_asconLoadBe (by omega) (by omega), List.getD_eq_getElem _ _ (by omega)]
    simp only [asconStoreBe, getElem_storeBe]
    rw [wordByte_xor, wordByte_asconLoadBe padded (by omega), getD_pad, if_pos below]
  simp only [asconDecryptLast, asconEncryptLast, length, Prod.mk.injEq, AsconState.mk.injEq,
    and_true]
  constructor
  · apply eq_of_wordByte_eq
    intro index below
    rw [wordByte_xor, wordByte_or, wordByte_and, wordByte_and,
      wordByte_not_asconMask _ short _ below, wordByte_asconMask _ short _ below,
      wordByte_padBit _ short _ below, wordByte_xor, wordByte_asconLoadBe padded below, getD_pad]
    by_cases inside : index < pt.length
    · rw [if_pos inside, if_pos inside, if_pos inside, if_neg (by omega), cipherByte _ inside,
        all_and_byte]
      simp
    · rw [if_neg inside, if_neg inside, if_neg inside, all_and_byte]
      simp
  · apply asconStoreBe_eq rfl
    intro index below
    rw [wordByte_xor, cipherByte _ below, ← UInt8.xor_assoc, UInt8.xor_self, UInt8.zero_xor]

theorem length_asconEncryptMessage (s : AsconState) (pt : Bytes) :
    (asconEncryptMessage s pt).2.length = pt.length := by
  simp only [asconEncryptMessage, asconEncryptLast, List.length_append, length_asconStoreBe,
    length_asconEncryptBlocks, List.length_drop]
  omega

/-- The whole message: same final state, and the plaintext comes back. -/
theorem asconDecryptMessage_encryptMessage (s : AsconState) (pt : Bytes) :
    asconDecryptMessage s (asconEncryptMessage s pt).2 = ((asconEncryptMessage s pt).1, pt) := by
  have blocksLength := length_asconEncryptBlocks (pt.length / 8) s pt
  have short : (pt.drop (8 * (pt.length / 8))).length < 8 := by
    rw [List.length_drop]
    omega
  unfold asconDecryptMessage
  rw [length_asconEncryptMessage]
  simp only [asconEncryptMessage]
  rw [asconDecryptBlocks_encryptBlocks _ _ _ _ (by omega), List.drop_left' blocksLength,
    asconDecryptLast_encryptLast _ short, List.take_append_drop]

/-- A tag prefix agrees with the tag it was cut from. -/
theorem asconTagMatches_take (tag : Bytes) (taglen : Nat) :
    asconTagMatches tag (tag.take taglen) = true := by
  induction tag generalizing taglen with
  | nil => rfl
  | cons first rest inductionHypothesis =>
      cases taglen with
      | zero => rfl
      | succ taglen =>
          have step := inductionHypothesis taglen
          simpa [asconTagMatches] using step

/-- Decryption under the same key, nonce and associated data returns the
plaintext, for a tag cut to any length. -/
theorem ascon128Decrypt_encrypt (key : Key) (npub ad pt : Bytes) (taglen : Nat) :
    ascon128Decrypt key npub ad (ascon128Encrypt key npub ad pt).1
      ((ascon128Encrypt key npub ad pt).2.take taglen) = some pt := by
  unfold ascon128Decrypt ascon128Encrypt
  rw [asconDecryptMessage_encryptMessage]
  simp only [asconTagMatches_take, if_true]

/-- Encryption keeps the length of the message. -/
theorem length_ascon128Encrypt (key : Key) (npub ad pt : Bytes) :
    (ascon128Encrypt key npub ad pt).1.length = pt.length :=
  length_asconEncryptMessage _ _

theorem length_ascon128Encrypt_tag (key : Key) (npub ad pt : Bytes) :
    (ascon128Encrypt key npub ad pt).2.length = 16 :=
  length_asconFinal _ _

end LoraSerial.LinkLayer
