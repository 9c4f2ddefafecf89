import LoraSerial.LinkLayer.Ascon

/-!
Owns the converse of decryption: re-encrypting what `ascon128Decrypt` returned gives
back the same sponge state and the same ciphertext, block by block, and a tag that
verified is a prefix of the tag of that plaintext. The main result is that opening
succeeds with a plaintext exactly when sealing that plaintext gives the ciphertext and
the tag.
-/

namespace LoraSerial.LinkLayer

open Library.WordBytes

/-! ## Encryption inverts decryption -/

/-- One full block: re-encrypting the decrypted block leaves the ciphertext word. -/
theorem asconLoadBe_cancel (x c : UInt64) :
    x ^^^ asconLoadBe (asconStoreBe 8 (x ^^^ c)) = c := by
  rw [asconLoadBe_asconStoreBe, ← UInt64.xor_assoc, UInt64.xor_self, UInt64.zero_xor]

theorem asconStoreBe_asconLoadBe {b : Bytes} (length : b.length = 8) :
    asconStoreBe 8 (asconLoadBe b) = b := by
  apply asconStoreBe_eq length
  intro index below
  exact wordByte_asconLoadBe (by omega) below

theorem length_asconDecryptBlocks (blocks : Nat) (s : AsconState) (ct : Bytes) :
    (asconDecryptBlocks blocks s ct).2.length = 8 * blocks := by
  induction blocks generalizing s ct with
  | zero => rfl
  | succ blocks inductionHypothesis =>
      simp only [asconDecryptBlocks, List.length_append, length_asconStoreBe,
        inductionHypothesis]
      omega

/-- The full blocks: same final state, and the ciphertext blocks come back, also
when more plaintext follows. -/
theorem asconEncryptBlocks_decryptBlocks (blocks : Nat) (s : AsconState) (ct rest : Bytes)
    (long : 8 * blocks ≤ ct.length) :
    asconEncryptBlocks blocks s ((asconDecryptBlocks blocks s ct).2 ++ rest) =
      ((asconDecryptBlocks blocks s ct).1, ct.take (8 * blocks)) := by
  induction blocks generalizing s ct with
  | zero => simp [asconDecryptBlocks, asconEncryptBlocks]
  | succ blocks inductionHypothesis =>
      have block : (ct.take 8).length = 8 := by
        rw [List.length_take]
        omega
      simp only [asconDecryptBlocks, asconEncryptBlocks]
      rw [List.append_assoc, List.take_left' (length_asconStoreBe 8 _),
        List.drop_left' (length_asconStoreBe 8 _), asconLoadBe_cancel,
        asconStoreBe_asconLoadBe block,
        inductionHypothesis _ _ (by rw [List.length_drop]; omega)]
      simp only [Prod.mk.injEq, true_and]
      rw [show 8 * (blocks + 1) = 8 + 8 * blocks by omega, List.take_add]

/-- The last block: decryption rebuilds with mask and pad bit the state that
re-encrypting its output reaches by absorbing the padded plaintext. -/
theorem asconEncryptLast_decryptLast (s : AsconState) {ct : Bytes} (short : ct.length < 8) :
    asconEncryptLast s (asconDecryptLast s ct).2 = ((asconDecryptLast s ct).1, ct) := by
  have length : (asconStoreBe ct.length (s.x0 ^^^ asconLoadBe ct)).length = ct.length :=
    length_asconStoreBe _ _
  have plainByte : ∀ index, index < ct.length →
      (asconStoreBe ct.length (s.x0 ^^^ asconLoadBe ct)).getD index 0 =
        wordByte s.x0 index ^^^ ct.getD index 0 := by
    intro index below
    rw [List.getD_eq_getElem _ _ (by omega)]
    simp only [asconStoreBe, getElem_storeBe]
    rw [wordByte_xor, wordByte_asconLoadBe (by omega) (by omega)]
  -- byte by byte: ciphertext below `ct.length`, the pad bit on it, the old state above
  have absorbed : ∀ index, index < 8 →
      wordByte (s.x0 ^^^ asconLoadBe
          (asconStoreBe ct.length (s.x0 ^^^ asconLoadBe ct) ++ [0x80])) index =
        if index < ct.length then ct.getD index 0
        else wordByte s.x0 index ^^^ (if index = ct.length then 0x80 else 0) := by
    intro index below
    rw [wordByte_xor, wordByte_asconLoadBe (by simp; omega) below, getD_pad, length]
    by_cases inside : index < ct.length
    · rw [if_pos inside, if_pos inside, plainByte _ inside, ← UInt8.xor_assoc,
        UInt8.xor_self, UInt8.zero_xor]
    · rw [if_neg inside, if_neg inside]
  simp only [asconDecryptLast, asconEncryptLast, length, Prod.mk.injEq, AsconState.mk.injEq,
    and_true]
  constructor
  · apply eq_of_wordByte_eq
    intro index below
    rw [absorbed _ below, wordByte_xor, wordByte_or, wordByte_and, wordByte_and,
      wordByte_not_asconMask _ short _ below, wordByte_asconMask _ short _ below,
      wordByte_padBit _ short _ below, wordByte_asconLoadBe (by omega) below]
    by_cases inside : index < ct.length
    · rw [if_pos inside, if_pos inside, if_pos inside, if_neg (by omega), all_and_byte]
      simp
    · rw [if_neg inside, if_neg inside, if_neg inside, all_and_byte]
      simp
  · apply asconStoreBe_eq rfl
    intro index below
    rw [absorbed _ (by omega), if_pos below]

theorem length_asconDecryptMessage (s : AsconState) (ct : Bytes) :
    (asconDecryptMessage s ct).2.length = ct.length := by
  simp only [asconDecryptMessage, asconDecryptLast, List.length_append, length_asconStoreBe,
    length_asconDecryptBlocks, List.length_drop]
  omega

/-- The whole message: same final state, and the ciphertext comes back. -/
theorem asconEncryptMessage_decryptMessage (s : AsconState) (ct : Bytes) :
    asconEncryptMessage s (asconDecryptMessage s ct).2 = ((asconDecryptMessage s ct).1, ct) := by
  have blocksLength := length_asconDecryptBlocks (ct.length / 8) s ct
  have short : (ct.drop (8 * (ct.length / 8))).length < 8 := by
    rw [List.length_drop]
    omega
  unfold asconEncryptMessage
  rw [length_asconDecryptMessage]
  simp only [asconDecryptMessage]
  rw [asconEncryptBlocks_decryptBlocks _ _ _ _ (by omega), List.drop_left' blocksLength,
    asconEncryptLast_decryptLast _ short, List.take_append_drop]

/-! ## The tag compare -/

/-- Or-ing up differences gives zero only when every difference is zero. -/
theorem foldl_or_eq_zero (differences : Bytes) (acc : UInt8) :
    differences.foldl (fun acc difference => acc ||| difference) acc = 0 ↔
      acc = 0 ∧ ∀ difference ∈ differences, difference = 0 := by
  induction differences generalizing acc with
  | nil => simp
  | cons first rest inductionHypothesis =>
      rw [List.foldl_cons, inductionHypothesis, UInt8.or_eq_zero_iff]
      simp [and_assoc]

/-- A tag no longer than the computed one matches exactly when it is its prefix. -/
theorem asconTagMatches_iff {computed tag : Bytes} (shortTag : tag.length ≤ computed.length) :
    asconTagMatches computed tag = true ↔ tag <+: computed := by
  rw [asconTagMatches, beq_iff_eq, foldl_or_eq_zero]
  induction tag generalizing computed with
  | nil => simp
  | cons first rest inductionHypothesis =>
      cases computed with
      | nil => simp at shortTag
      | cons head tail =>
          have tailMatches := inductionHypothesis
            (show rest.length ≤ tail.length by simpa using shortTag)
          simp only [true_and] at tailMatches
          rw [List.cons_prefix_cons, ← tailMatches]
          simp [eq_comm]

/-! ## Opening is exact -/

/-- Opening returns a plaintext exactly when sealing that plaintext under the same
key, nonce and associated data gives the ciphertext and a tag that starts with the
given one, for a message of any length and a tag of at most sixteen bytes. -/
theorem ascon128Decrypt_iff (key : Key) (npub ad ct tag pt : Bytes)
    (shortTag : tag.length ≤ 16) :
    ascon128Decrypt key npub ad ct tag = some pt ↔
      (ascon128Encrypt key npub ad pt).1 = ct ∧ tag <+: (ascon128Encrypt key npub ad pt).2 := by
  constructor
  next =>
    intro opened
    simp only [ascon128Decrypt] at opened
    split at opened
    next verified =>
      rw [asconTagMatches_iff (by rw [length_asconFinal]; exact shortTag)] at verified
      rw [← Option.some.inj opened]
      unfold ascon128Encrypt
      rw [asconEncryptMessage_decryptMessage]
      exact ⟨rfl, verified⟩
    next => cases opened
  next =>
    rintro ⟨rfl, cut⟩
    rw [List.prefix_iff_eq_take.mp cut]
    exact ascon128Decrypt_encrypt key npub ad pt tag.length

/-- One block and three bytes more, under an eight-byte tag: they open to the message that was
sealed. -/
theorem ascon128Decrypt_iff_partial :
    let key : Key := Vector.replicate 16 0x5A
    let npub : Bytes := List.replicate 15 0 ++ [1]
    let ct : Bytes := [26, 235, 254, 133, 109, 24, 200, 160, 174, 192, 0]
    let tag : Bytes := [141, 19, 146, 163, 66, 198, 47, 235]
    let pt : Bytes := [104, 101, 108, 108, 111, 32, 119, 111, 114, 108, 100]
    ascon128Decrypt key npub [1, 2, 7] ct tag = some pt ∧
      (ascon128Encrypt key npub [1, 2, 7] pt).1 = ct ∧
      tag <+: (ascon128Encrypt key npub [1, 2, 7] pt).2 := by
  intro key npub ct tag pt
  have seals : (ascon128Encrypt key npub [1, 2, 7] pt).1 = ct ∧
      tag <+: (ascon128Encrypt key npub [1, 2, 7] pt).2 := by
    decide +kernel
  exact ⟨(ascon128Decrypt_iff key npub [1, 2, 7] ct tag pt (by decide)).mpr seals, seals⟩

end LoraSerial.LinkLayer
