import LoraSerial.LinkLayer.Footprint

/-!
Owns the round trip of one frame: a header parses back, a sealed frame cuts and
opens under the same key, and what a link encodes another link with the same
encryption settings either refuses or decodes to the bytes that were framed.
-/

namespace LoraSerial.LinkLayer

open Library Library.WordBytes

/-! ### Header -/

/-- The two SACK bytes of the header carry the whole bitmap. -/
theorem sack_bytes (sack : UInt16) :
    ((sack >>> 8).toUInt8.toUInt16 <<< 8) ||| (sack &&& 0xFF).toUInt8.toUInt16 = sack := by
  apply UInt16.toNat_inj.mp
  have high : ((sack >>> 8).toUInt8.toUInt16 <<< 8).toNat = (sack.toNat / 256) <<< 8 := by
    have below : sack.toNat < 65536 := sack.toNat_lt
    simp only [UInt16.toNat_shiftLeft, UInt8.toNat_toUInt16, UInt16.toNat_toUInt8,
      UInt16.toNat_shiftRight]
    change (sack.toNat >>> 8 % 256) <<< 8 % 65536 = _
    rw [Nat.shiftLeft_eq, Nat.shiftRight_eq_div_pow, Nat.shiftLeft_eq]
    omega
  have low : (sack &&& 0xFF).toUInt8.toUInt16.toNat = sack.toNat % 256 := by
    simp only [UInt8.toNat_toUInt16, UInt16.toNat_toUInt8, UInt16.toNat_and]
    change (sack.toNat &&& (2 ^ 8 - 1)) % 256 = _
    rw [Nat.and_two_pow_sub_one_eq_mod]
    omega
  rw [UInt16.toNat_or, high, low, ← Nat.shiftLeft_add_eq_or_of_lt (by omega), Nat.shiftLeft_eq]
  omega

@[simp] theorem parseHeader_headerBytes (h : Header) (rest : Bytes) :
    parseHeader (headerBytes h ++ rest) = some (h, rest) := by
  simp only [headerBytes, List.cons_append, List.nil_append, parseHeader, sack_bytes]

@[simp] theorem length_headerBytes (h : Header) : (headerBytes h).length = hdr :=
  rfl

/-! ### Flags -/

theorem hasFlag_or (left right flag : UInt8) :
    hasFlag (left ||| right) flag = (hasFlag left flag || hasFlag right flag) := by
  have split : (left ||| right) &&& flag = (left &&& flag) ||| (right &&& flag) := by
    apply UInt8.toNat_inj.mp
    simp only [UInt8.toNat_and, UInt8.toNat_or, Nat.and_or_distrib_right]
  rw [Bool.eq_iff_iff]
  simp only [hasFlag, bne_iff_ne, ne_eq, Bool.or_eq_true, split, UInt8.or_eq_zero_iff]
  tauto

/-- The control bits never look like a frame flag. -/
theorem hasFlag_ctrl (bits : UInt8) {flag : UInt8} (low : ctrlMask &&& flag = 0) :
    hasFlag (bits &&& ctrlMask) flag = false := by
  rw [hasFlag, UInt8.and_assoc, low, UInt8.and_zero]
  rfl

/-! ### Sealed frames -/

/-- The body of a sealed frame behind its header. -/
def sealedBody (key : Key) (tagLen : Nat) (h : Header) (ctr : UInt64) (p : Bytes) : Bytes :=
  let sealed := ascon128Encrypt key (buildNonce h.src h.epoch ctr)
    (headerBytes h ++ storeBe ctrW ctr) p
  storeBe ctrW ctr ++ (sealed.1 ++ sealed.2.take tagLen)

theorem sealFrame_eq (key : Key) (tagLen : Nat) (h : Header) (ctr : UInt64) (p : Bytes) :
    sealFrame key tagLen h ctr p = headerBytes h ++ sealedBody key tagLen h ctr p := by
  simp only [sealFrame, sealedBody, List.append_assoc]

theorem take_sealedBody (key : Key) (tagLen : Nat) (h : Header) (ctr : UInt64) (p : Bytes) :
    (sealedBody key tagLen h ctr p).take ctrW = storeBe ctrW ctr := by
  rw [sealedBody, List.take_left' (length_storeBe ctrW ctr)]

theorem drop_sealedBody (key : Key) (tagLen : Nat) (h : Header) (ctr : UInt64) (p : Bytes) :
    (sealedBody key tagLen h ctr p).drop ctrW =
      (ascon128Encrypt key (buildNonce h.src h.epoch ctr)
          (headerBytes h ++ storeBe ctrW ctr) p).1 ++
        (ascon128Encrypt key (buildNonce h.src h.epoch ctr)
          (headerBytes h ++ storeBe ctrW ctr) p).2.take tagLen := by
  rw [sealedBody, List.drop_left' (length_storeBe ctrW ctr)]

/-- A sealed frame cuts into its counter, associated data, ciphertext and tag. -/
theorem splitSealed_sealFrame (key : Key) {tagLen : Nat} (h : Header) (ctr : UInt64)
    (p : Bytes) (length : h.len.toNat = p.length) (shortTag : tagLen ≤ tagMax) :
    splitSealed tagLen (sealFrame key tagLen h ctr p) h (sealedBody key tagLen h ctr p) =
      some
        { ctr := ctr
          ad := headerBytes h ++ storeBe ctrW ctr
          ct := (ascon128Encrypt key (buildNonce h.src h.epoch ctr)
            (headerBytes h ++ storeBe ctrW ctr) p).1
          tag := (ascon128Encrypt key (buildNonce h.src h.epoch ctr)
            (headerBytes h ++ storeBe ctrW ctr) p).2.take tagLen } := by
  have cipherLength := length_ascon128Encrypt key (buildNonce h.src h.epoch ctr)
    (headerBytes h ++ storeBe ctrW ctr) p
  have tagLength := length_ascon128Encrypt_tag key (buildNonce h.src h.epoch ctr)
    (headerBytes h ++ storeBe ctrW ctr) p
  have ad : (sealFrame key tagLen h ctr p).take (hdr + ctrW) =
      headerBytes h ++ storeBe ctrW ctr := by
    rw [sealFrame, List.append_assoc, List.take_left' (by simp)]
  have counter : loadBe (storeBe ctrW ctr) = ctr := loadBe_storeBe ctr
  have whole : ctrW ≤ (sealedBody key tagLen h ctr p).length := by simp [sealedBody]
  have fits : p.length + tagLen ≤ ((sealedBody key tagLen h ctr p).drop ctrW).length := by
    unfold tagMax at shortTag
    rw [drop_sealedBody, List.length_append, List.length_take, tagLength, cipherLength]
    omega
  simp only [splitSealed, length]
  rw [if_neg (by omega), if_neg (by omega), ad, take_sealedBody, counter, drop_sealedBody,
    ← cipherLength, List.take_left, List.drop_left, List.take_take, Nat.min_self]

namespace Link

variable {RING : Nat}

theorem aeadOpen_sealed (heatshrink : Heatshrink) (link : Link RING) {key : Key} {tagLen : Nat}
    {h : Header} {ctr : UInt64} {p : Bytes} (keyed : link.cfg.key = some key) :
    link.aeadOpen heatshrink h
        { ctr := ctr
          ad := headerBytes h ++ storeBe ctrW ctr
          ct := (ascon128Encrypt key (buildNonce h.src h.epoch ctr)
            (headerBytes h ++ storeBe ctrW ctr) p).1
          tag := (ascon128Encrypt key (buildNonce h.src h.epoch ctr)
            (headerBytes h ++ storeBe ctrW ctr) p).2.take tagLen } =
      if (link.replayOk ctr).1 then
        match decodePayload heatshrink h.flags p with
        | none => ((link.replayOk ctr).2, .error .undecodable)
        | some payload => ((link.replayOk ctr).2, .ok payload)
      else ((link.replayOk ctr).2, .error .replayed) := by
  have opened := ascon128Decrypt_encrypt key (buildNonce h.src h.epoch ctr)
    (headerBytes h ++ storeBe ctrW ctr) p tagLen
  unfold aeadOpen
  rw [keyed]
  dsimp only
  split
  next refused =>
    rw [opened] at refused
    cases refused
  next buf decrypted =>
    rw [opened] at decrypted
    cases decrypted
    rfl

/-! ### Encoding -/

/-- The header `encode` puts on the wire. -/
def wireHeader (heatshrink : Heatshrink) (link : Link RING) (flags seq : UInt8) (raw : Bytes) :
    Header :=
  let packed := link.packPayload heatshrink flags raw
  link.frameHeader (if link.sealKey.isSome then packed.1 ||| fEnc else packed.1) seq
    packed.2.length

/-- `encode` has no room, or seals and counts, or sends plaintext. -/
theorem encode_cases (heatshrink : Heatshrink) (link : Link RING) (cap : Nat)
    (flags seq : UInt8) (raw : Bytes) :
    link.encode heatshrink cap flags seq raw = ⟨link, none, none⟩ ∨
      (∃ key, link.sealKey = some key ∧
        link.encode heatshrink cap flags seq raw =
          ⟨{ link with txCtr64 := link.txCtr64 + 1 }.maybePersist.1,
            some (sealFrame key link.cfg.tagLen.toNat (link.wireHeader heatshrink flags seq raw)
              (link.txCtr64 + 1) (link.packPayload heatshrink flags raw).2),
            { link with txCtr64 := link.txCtr64 + 1 }.maybePersist.2⟩) ∨
      (link.sealKey = none ∧
        link.encode heatshrink cap flags seq raw =
          ⟨link, some (headerBytes (link.wireHeader heatshrink flags seq raw) ++
            (link.packPayload heatshrink flags raw).2), none⟩) := by
  cases keyed : link.sealKey with
  | some key =>
      simp only [encode, keyed, wireHeader]
      split
      · exact Or.inl rfl
      · exact Or.inr (Or.inl ⟨key, rfl, rfl⟩)
  | none =>
      simp only [encode, keyed, wireHeader]
      split
      · exact Or.inl rfl
      · exact Or.inr (Or.inr ⟨trivial, rfl⟩)

theorem parseHeader_encode {heatshrink : Heatshrink} {link : Link RING} {cap : Nat}
    {flags seq : UInt8} {raw bytes : Bytes}
    (encoded : (link.encode heatshrink cap flags seq raw).frame = some bytes) :
    ∃ body, parseHeader bytes = some (link.wireHeader heatshrink flags seq raw, body) := by
  rcases link.encode_cases heatshrink cap flags seq raw with
    result | ⟨key, -, result⟩ | ⟨-, result⟩ <;> rw [result] at encoded <;> cases encoded
  · exact ⟨_, by rw [sealFrame_eq, parseHeader_headerBytes]⟩
  · exact ⟨_, parseHeader_headerBytes _ _⟩

/-! ### Payload -/

/-- A compressed payload is shorter, and decompressing it gives the payload back
whenever the decoder inverts the encoder. -/
theorem packPayload_cases (heatshrink : Heatshrink) (link : Link RING) (flags : UInt8)
    (raw : Bytes) :
    link.packPayload heatshrink flags raw = (flags, raw) ∨
      ∃ c, compress heatshrink raw (maxPay + 16) = some c ∧ c.length < raw.length ∧
        link.packPayload heatshrink flags raw = (flags ||| fComp, c) := by
  unfold packPayload
  split
  · split
    next c compressed =>
      split
      next shorter => exact Or.inr ⟨c, compressed, shorter.2, rfl⟩
      · exact Or.inl rfl
    · exact Or.inl rfl
  · exact Or.inl rfl

end Link

/-- The decoder gives back every payload the encoder shrinks. -/
def Heatshrink.Inverts (heatshrink : Heatshrink) : Prop :=
  ∀ raw c, raw.length ≤ maxPay → compress heatshrink raw (maxPay + 16) = some c →
    decompress heatshrink c decMax = some raw

theorem StreamCoder.drive_copying {src : Bytes} {cap : Nat} (short : src.length < cap) :
    StreamCoder.copying.drive src cap = .done src := by
  have nothing : ∀ fuel out, StreamCoder.copying.finishLoop cap (fuel + 1) [] out = .done out := by
    intro fuel out
    simp [StreamCoder.finishLoop, StreamCoder.copying]
  have sunk : StreamCoder.copying.sinkLoop cap (src.length + 1) [] src [] = .done ([], src) := by
    cases src with
    | nil => rfl
    | cons byte rest =>
        have fits : ¬cap ≤ rest.length + 1 := Nat.not_le_of_lt short
        have room : ¬cap ≤ 0 := by omega
        have whole : (byte :: rest).drop cap = [] := List.drop_of_length_le (Nat.le_of_lt short)
        have taken : (byte :: rest).take cap = byte :: rest :=
          List.take_of_length_le (Nat.le_of_lt short)
        simp [StreamCoder.sinkLoop, StreamCoder.pollLoop, StreamCoder.copying, fits, room, whole,
          taken]
  rw [StreamCoder.drive, show StreamCoder.copying.reset = [] from rfl, sunk]
  exact nothing _ _

theorem Heatshrink.copying_inverts : Heatshrink.copying.Inverts := by
  intro raw c short compressed
  have copied : Heatshrink.copying.encoder.drive raw (maxPay + 16) = .done raw :=
    StreamCoder.drive_copying (by omega)
  rw [compress, copied] at compressed
  simp at compressed

namespace Link

variable {RING : Nat}

theorem length_packPayload_le (heatshrink : Heatshrink) (link : Link RING) (flags : UInt8)
    (raw : Bytes) : (link.packPayload heatshrink flags raw).2.length ≤ raw.length := by
  rcases link.packPayload_cases heatshrink flags raw with
    packed | ⟨c, -, shorter, packed⟩ <;> rw [packed]
  exact Nat.le_of_lt shorter

/-- Only the compression flag is added to the caller's flags, besides encryption
and control bits. -/
theorem hasFlag_wireHeader (heatshrink : Heatshrink) (link : Link RING) (flags seq : UInt8)
    (raw : Bytes) {flag : UInt8} (low : ctrlMask &&& flag = 0) :
    hasFlag (link.wireHeader heatshrink flags seq raw).flags flag =
      (hasFlag (link.packPayload heatshrink flags raw).1 flag ||
        (link.sealKey.isSome && hasFlag fEnc flag)) := by
  simp only [wireHeader, frameHeader, hasFlag_or, hasFlag_ctrl _ low, Bool.or_false]
  cases link.sealKey.isSome <;> simp [hasFlag_or]

theorem hasFlag_packPayload (heatshrink : Heatshrink) (link : Link RING) (flags : UInt8)
    (raw : Bytes) {flag : UInt8} (other : hasFlag fComp flag = false) :
    hasFlag (link.packPayload heatshrink flags raw).1 flag = hasFlag flags flag := by
  rcases link.packPayload_cases heatshrink flags raw with
    packed | ⟨c, -, -, packed⟩ <;> rw [packed]
  rw [hasFlag_or, other, Bool.or_false]

theorem hasFlag_wireHeader_data (heatshrink : Heatshrink) (link : Link RING)
    (flags seq : UInt8) (raw : Bytes) :
    hasFlag (link.wireHeader heatshrink flags seq raw).flags fData = hasFlag flags fData := by
  rw [hasFlag_wireHeader _ _ _ _ _ (by decide), hasFlag_packPayload _ _ _ _ (by decide),
    show hasFlag fEnc fData = false by decide, Bool.and_false, Bool.or_false]

/-- The packed payload decodes to the framed bytes. -/
theorem decodePayload_packed {heatshrink : Heatshrink} (inverts : heatshrink.Inverts)
    (link : Link RING) {flags : UInt8} (seq : UInt8) {raw : Bytes} (short : raw.length ≤ maxPay)
    (plain : hasFlag flags fComp = false) :
    decodePayload heatshrink (link.wireHeader heatshrink flags seq raw).flags
      (link.packPayload heatshrink flags raw).2 = some raw := by
  rw [decodePayload, hasFlag_wireHeader _ _ _ _ _ (by decide),
    show hasFlag fEnc fComp = false by decide, Bool.and_false, Bool.or_false]
  rcases link.packPayload_cases heatshrink flags raw with
    packed | ⟨c, compressed, -, packed⟩ <;> rw [packed]
  · have fits : ¬decMax < raw.length := by
      unfold decMax
      omega
    simp only [plain, Bool.false_eq_true, if_false, if_neg fits]
  · rw [hasFlag_or, show hasFlag fComp fComp = true by decide, Bool.or_true, if_pos rfl]
    exact inverts raw c short compressed

/-! ### Sender and receiver -/

/-- What opening a frame must share with sealing it. -/
def sealSettings (link : Link RING) : Option Key × UInt8 :=
  (link.cfg.key, link.cfg.tagLen)

/-- What a receiver with the same key and tag length makes of an encoded frame: a sealed
one decodes unless its counter is refused, a plain one unless the receiver encrypts. -/
theorem authenticate_encoded {heatshrink : Heatshrink} (inverts : heatshrink.Inverts)
    {PEER : Nat} {sender : Link RING} {receiver : Link PEER}
    (same : receiver.sealSettings = sender.sealSettings)
    (shortTag : sender.cfg.tagLen.toNat ≤ tagMax) {cap : Nat} {flags seq : UInt8}
    {raw bytes body : Bytes} {h : Header} (short : raw.length ≤ maxPay)
    (noComp : hasFlag flags fComp = false) (noEnc : hasFlag flags fEnc = false)
    (encoded : (sender.encode heatshrink cap flags seq raw).frame = some bytes)
    (parsed : parseHeader bytes = some (h, body)) :
    (receiver.authenticate heatshrink bytes h body).2 =
      if sender.sealKey.isSome then
        if (receiver.replayOk (sender.txCtr64 + 1)).1 then .ok (some raw) else .error .replayed
      else if receiver.cfg.encrypt then .error .plaintext
      else .ok (some raw) := by
  have decoded := decodePayload_packed inverts sender seq short noComp
  have shortPacked := (sender.length_packPayload_le heatshrink flags raw).trans short
  have length : (sender.wireHeader heatshrink flags seq raw).len.toNat =
      (sender.packPayload heatshrink flags raw).2.length := by
    unfold maxPay at shortPacked
    simp only [wireHeader, frameHeader, UInt8.toNat_ofNat']
    omega
  have encFlag : hasFlag (sender.wireHeader heatshrink flags seq raw).flags fEnc =
      sender.sealKey.isSome := by
    rw [hasFlag_wireHeader _ _ _ _ _ (by decide), hasFlag_packPayload _ _ _ _ (by decide), noEnc,
      show hasFlag fEnc fEnc = true by decide, Bool.and_true, Bool.false_or]
  rcases sender.encode_cases heatshrink cap flags seq raw with
    result | ⟨key, sealed, result⟩ | ⟨plain, result⟩ <;> rw [result] at encoded <;> cases encoded
  · rw [sealFrame_eq, parseHeader_headerBytes] at parsed
    cases parsed
    have keyed : receiver.cfg.key = some key := by
      rw [show receiver.cfg.key = sender.cfg.key from congrArg Prod.fst same]
      unfold sealKey at sealed
      split at sealed
      · exact sealed
      · cases sealed
    rw [authenticate, encFlag, sealed,
      show receiver.cfg.tagLen = sender.cfg.tagLen from congrArg Prod.snd same]
    simp only [Option.isSome_some, Bool.not_true, Bool.and_false, Bool.false_eq_true, if_false,
      if_true, splitSealed_sealFrame key _ _ _ length shortTag]
    rw [aeadOpen_sealed heatshrink receiver keyed, decoded]
    cases (receiver.replayOk (sender.txCtr64 + 1)).1 <;> rfl
  · rw [parseHeader_headerBytes] at parsed
    cases parsed
    rw [authenticate, encFlag, plain]
    simp only [Option.isSome_none, Bool.not_false, Bool.and_true, Bool.false_eq_true, if_false]
    split
    · rfl
    · rw [if_neg (by omega), length, List.take_length, decoded]

/-- A receiver with the same key and tag length refuses an encoded frame or decodes
it to the framed bytes. -/
theorem authenticate_encode {heatshrink : Heatshrink} (inverts : heatshrink.Inverts)
    {PEER : Nat} {sender : Link RING} {receiver : Link PEER}
    (same : receiver.sealSettings = sender.sealSettings)
    (shortTag : sender.cfg.tagLen.toNat ≤ tagMax) {cap : Nat} {flags seq : UInt8}
    {raw bytes body : Bytes} {h : Header} (short : raw.length ≤ maxPay)
    (noComp : hasFlag flags fComp = false) (noEnc : hasFlag flags fEnc = false)
    (encoded : (sender.encode heatshrink cap flags seq raw).frame = some bytes)
    (parsed : parseHeader bytes = some (h, body)) :
    (∃ exit, (receiver.authenticate heatshrink bytes h body).2 = .error exit) ∨
      (receiver.authenticate heatshrink bytes h body).2 = .ok (some raw) := by
  rw [authenticate_encoded inverts same shortTag short noComp noEnc encoded parsed]
  split
  · split
    · exact Or.inr rfl
    · exact Or.inl ⟨_, rfl⟩
  · split
    · exact Or.inl ⟨_, rfl⟩
    · exact Or.inr rfl

end Link

end LoraSerial.LinkLayer
