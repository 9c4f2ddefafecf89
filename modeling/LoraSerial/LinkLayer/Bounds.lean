import LoraSerial.Library.CheckedBuffer
import LoraSerial.LinkLayer.Admission
import LoraSerial.LinkLayer.Burst
import LoraSerial.LinkLayer.Opening

/-!
Owns `OnRx` at the level of pointers and lengths: every read of the frame and every write
to a stack buffer or a receive slot names its buffer, offset and length, and faults outside
it. Proves that no frame of at most `maxFrame` bytes faults and that the result is the one
of the list model. Does not own the rings.
-/

namespace LoraSerial.LinkLayer

open Library Library.WordBytes Library.CheckedBuffer

/-! ### Ascon -/

/-- Decrypt `blocks` full blocks from `frame` at `ct` into `buf` at `pt`. -/
def asconDecryptBlocksAt (frame : Bytes) : Nat → AsconState → Nat → Bytes → Nat →
    Option (AsconState × Bytes)
  | 0, s, _, buf, _ => some (s, buf)
  | blocks + 1, s, ct, buf, pt => do
      let block ← load frame ct 8
      let c := asconLoadBe block
      let buf ← store buf pt (asconStoreBe 8 (s.x0 ^^^ c))
      asconDecryptBlocksAt frame blocks (asconP6 { s with x0 := c }) (ct + 8) buf (pt + 8)

/-- Associated data at the front of `frame`, ciphertext at `ct`, tag at `tag`; the
plaintext goes to the front of `buf`. -/
def ascon128DecryptAt (key : Key) (npub frame : Bytes) (adlen ct ctlen tag taglen : Nat)
    (buf : Bytes) : Option (Bool × Bytes) := do
  let ad ← load frame 0 adlen
  let blocks := ctlen / 8
  let full ← asconDecryptBlocksAt frame blocks (asconStart key npub ad) ct buf 0
  let rest ← load frame (ct + 8 * blocks) (ctlen % 8)
  let last := asconDecryptLast full.1 rest
  let buf ← store full.2 (8 * blocks) last.2
  let computed ← load (asconFinal last.1 key) 0 taglen
  let given ← load frame tag taglen
  some (asconTagMatches computed given, buf)

/-! ### Decompression -/

/-- The value of a loop that stopped with one. -/
def Drive.map {α β : Type} (f : α → β) : Drive α → Drive β
  | .running => .running
  | .full => .full
  | .done value => .done (f value)

namespace StreamCoder

variable (coder : StreamCoder)

def pollLoopAt (cap : Nat) : Nat → coder.State → Bytes → Nat →
    Option (Drive (coder.State × Bytes × Nat))
  | 0, _, _, _ => some .running
  | fuel + 1, state, dst, out =>
      if cap ≤ out then some .full
      else do
        let polled := coder.poll state (cap - out)
        let dst ← store dst out polled.output
        if polled.more then pollLoopAt cap fuel polled.state dst (out + polled.output.length)
        else some (.done (polled.state, dst, out + polled.output.length))

/-- The source is `src[base..base + len)`, of which `sunk` bytes were taken. -/
def sinkLoopAt (src : Bytes) (base len cap : Nat) : Nat → coder.State → Nat → Bytes → Nat →
    Option (Drive (coder.State × Bytes × Nat))
  | 0, _, _, _, _ => some .running
  | fuel + 1, state, sunk, dst, out =>
      if len ≤ sunk then some (.done (state, dst, out))
      else do
        let input ← load src (base + sunk) (len - sunk)
        let taken := coder.sink state input
        match ← coder.pollLoopAt cap (cap + 2) taken.1 dst out with
        | .done (state, dst, out) => sinkLoopAt src base len cap fuel state (sunk + taken.2) dst out
        | .full => some .full
        | .running => some .running

def finishLoopAt (cap : Nat) : Nat → coder.State → Bytes → Nat → Option (Drive (Bytes × Nat))
  | 0, _, _, _ => some .running
  | fuel + 1, state, dst, out =>
      let finished := coder.finish state
      if finished.2 then
        if cap ≤ out then some .full
        else do
          let polled := coder.poll finished.1 (cap - out)
          let dst ← store dst out polled.output
          finishLoopAt cap fuel polled.state dst (out + polled.output.length)
      else some (.done (dst, out))

def driveAt (src : Bytes) (base len : Nat) (dst : Bytes) (cap : Nat) :
    Option (Drive (Bytes × Nat)) := do
  match ← coder.sinkLoopAt src base len cap (len + 1) coder.reset 0 dst 0 with
  | .running => some .running
  | .full => some .full
  | .done (state, dst, out) => coder.finishLoopAt cap (cap + 3) state dst out

end StreamCoder

/-- Length and buffer after a decode; the inner `none` is -1. -/
def decompressAt (heatshrink : Heatshrink) (src : Bytes) (base len : Nat) (dst : Bytes)
    (cap : Nat) : Option (Option (Nat × Bytes)) := do
  match ← heatshrink.decoder.driveAt src base len dst cap with
  | .done (dst, out) => some (some (out, dst))
  | _ => some none

/-- `DecodePlain`, and the end of `AeadOpen`, on `src[base..base + plen)`. -/
def decodeAt (heatshrink : Heatshrink) (src : Bytes) (base plen : Nat) (flags : UInt8)
    (out : Bytes) (cap : Nat) : Option (Option (Nat × Bytes)) :=
  if hasFlag flags fComp then decompressAt heatshrink src base plen out cap
  else if cap < plen then some none
  else do
    let bytes ← load src base plen
    let out ← store out 0 bytes
    some (some (plen, out))

/-! ### OnRx -/

/-- The buffers of one call: `buf` of `AeadOpen`, `dec` of `OnRx` and the `buf` of a receive
slot, with whatever they held before. -/
structure Stack where
  buf : Bytes
  dec : Bytes
  slot : Bytes
  buf_length : buf.length = maxPay + 16
  dec_length : dec.length = decMax
  slot_length : slot.length = decMax

/-- `in[0]` to `in[9]`. -/
def headerAt (input : Bytes) : Option Header := do
  let src ← input[0]?
  let dst ← input[1]?
  let flags ← input[2]?
  let seq ← input[3]?
  let ack ← input[4]?
  let epoch ← input[5]?
  let sackHi ← input[6]?
  let sackLo ← input[7]?
  let len ← input[8]?
  let aux ← input[9]?
  let sack : UInt16 := (sackHi.toUInt16 <<< 8) ||| sackLo.toUInt16
  some { src, dst, flags, seq, ack, epoch, sack, len, aux }

namespace Link

variable {RING : Nat}

def aeadOpenAt (heatshrink : Heatshrink) (stack : Stack) (link : Link RING) (frame : Bytes)
    (off : Nat) (h : Header) (ctr : UInt64) :
    Option (Link RING × Except RxExit (Nat × Bytes)) :=
  match link.cfg.key with
  | none => some (link, .error .noKey)
  | some key => do
      let plen := h.len.toNat
      let opened ← ascon128DecryptAt key (buildNonce h.src h.epoch ctr) frame (hdr + ctrW) off
        plen (off + plen) link.cfg.tagLen.toNat stack.buf
      if opened.1 then
        let checked := link.replayOk ctr
        if checked.1 then
          match ← decodeAt heatshrink opened.2 0 plen h.flags stack.dec decMax with
          | none => some (checked.2, .error .undecodable)
          | some placed => some (checked.2, .ok placed)
        else some (checked.2, .error .replayed)
      else some (link, .error .badTag)

/-- `decode` is evaluated only for a frame that is not buffered yet. -/
def storeFrameAt (stack : Stack) (link : Link RING) (seq : UInt8)
    (decode : Option (Option (Nat × Bytes))) : Option (Link RING) :=
  if link.holds seq then some link
  else do
    match ← decode with
    | some (dn, dec) =>
        let bytes ← load dec 0 dn
        let _ ← store stack.slot 0 bytes
        some { link with
          rx := Function.update link.rx (slotOf seq) { buf := bytes, seq := seq, received := true } }
    | none => some link

def receiveDataAt (stack : Stack) (link : Link RING) (seq : UInt8)
    (decode : Option (Option (Nat × Bytes))) : Option (Link RING) :=
  if (seq - link.rxNext).toNat < maxWin then do
    let stored ← link.storeFrameAt stack seq decode
    some { stored.drainInOrder with ackPending := true }
  else some { link with ackPending := true }

def acceptAt (stack : Stack) (link : Link RING) (h : Header)
    (decode : Option (Option (Nat × Bytes))) : Option (Link RING) :=
  let trusted := { link with
    rxCtrl := h.flags &&& ctrlMask
    rxAux := h.aux
    gotValidRx := true }
  let acked := trusted.ackProcess h.ack h.sack
  if hasFlag h.flags fData then acked.receiveDataAt stack h.seq decode else some acked

/-- `OnRx` on the first `input.length` bytes at `in`; `none` is an access outside a buffer. -/
def onRxAt (heatshrink : Heatshrink) (stack : Stack) (link : Link RING) (input : Bytes) :
    Option (RxResult RING) :=
  if input.length < hdr then some ⟨link, .tooShort, false⟩
  else do
    let h ← headerAt input
    if link.filters h then some ⟨link, .filtered, false⟩
    else
      let tracked := link.trackEpoch h.epoch
      if tracked.cfg.encrypt && !hasFlag h.flags fEnc then some ⟨tracked, .plaintext, false⟩
      else if hasFlag h.flags fEnc then
        if input.length < hdr + ctrW then some ⟨tracked, .malformed, false⟩
        else do
          let ctr ← load input hdr ctrW
          let off := hdr + ctrW
          if input.length < off + h.len.toNat + tracked.cfg.tagLen.toNat then
            some ⟨tracked, .malformed, false⟩
          else do
            let opened ← tracked.aeadOpenAt heatshrink stack input off h (loadBe ctr)
            match opened.2 with
            | .error exit => some ⟨opened.1, exit, false⟩
            | .ok placed => do
                let accepted ← opened.1.acceptAt stack h (some (some placed))
                some ⟨accepted, .accepted, !hasFlag h.flags fMore⟩
      else do
        let plen := if input.length < hdr + h.len.toNat then UInt8.ofNat (input.length - hdr)
          else h.len
        let accepted ← tracked.acceptAt stack h
          (decodeAt heatshrink input hdr plen.toNat h.flags stack.dec decMax)
        some ⟨accepted, .accepted, !hasFlag h.flags fMore⟩

end Link

/-! ### Decryption stays in its buffers -/

/-- Only the blocks themselves are read. -/
theorem asconDecryptBlocks_take (blocks : Nat) (s : AsconState) (ct : Bytes) {len : Nat}
    (long : 8 * blocks ≤ len) :
    asconDecryptBlocks blocks s (ct.take len) = asconDecryptBlocks blocks s ct := by
  induction blocks generalizing s ct len with
  | zero => rfl
  | succ blocks inductionHypothesis =>
      have front : (ct.take len).take 8 = ct.take 8 := by
        rw [List.take_take, Nat.min_eq_left (by omega)]
      simp only [asconDecryptBlocks, front, List.drop_take]
      rw [inductionHypothesis _ _ (show 8 * blocks ≤ len - 8 by omega)]

theorem asconDecryptBlocksAt_eq {frame : Bytes} (blocks : Nat) (s : AsconState) {ct : Nat}
    {buf written : Bytes} (inside : ct + 8 * blocks ≤ frame.length)
    (room : written.length + 8 * blocks ≤ buf.length) :
    asconDecryptBlocksAt frame blocks s ct (overlay buf written) written.length =
      some ((asconDecryptBlocks blocks s (frame.drop ct)).1,
        overlay buf (written ++ (asconDecryptBlocks blocks s (frame.drop ct)).2)) := by
  induction blocks generalizing s ct written with
  | zero => simp [asconDecryptBlocksAt, asconDecryptBlocks]
  | succ blocks inductionHypothesis =>
      have block : ∀ x, written.length + (asconStoreBe 8 x).length ≤ buf.length := by
        intro x
        rw [length_asconStoreBe]
        omega
      simp only [asconDecryptBlocksAt, asconDecryptBlocks,
        load_eq (show ct + 8 ≤ frame.length by omega), Option.bind_eq_bind, Option.bind_some, store_overlay (block _)]
      have further := inductionHypothesis
        (asconP6 { s with x0 := asconLoadBe ((frame.drop ct).take 8) })
        (show ct + 8 + 8 * blocks ≤ frame.length by omega)
        (show (written ++ asconStoreBe 8
          (s.x0 ^^^ asconLoadBe ((frame.drop ct).take 8))).length + 8 * blocks ≤ buf.length by
            rw [List.length_append, length_asconStoreBe]
            omega)
      rw [List.length_append, length_asconStoreBe] at further
      rw [further, List.drop_drop, List.append_assoc]

/-- The tag compare reads as many computed bytes as were given. -/
theorem asconTagMatches_take_left (computed tag : Bytes) :
    asconTagMatches (computed.take tag.length) tag = asconTagMatches computed tag := by
  have cut : List.zipWith (fun left right => left ^^^ right) (computed.take tag.length) tag =
      List.zipWith (fun left right => left ^^^ right) computed tag := by
    induction tag generalizing computed with
    | nil => simp
    | cons first rest inductionHypothesis =>
        cases computed with
        | nil => rfl
        | cons head tail =>
            simp only [List.length_cons, List.take_succ_cons, List.zipWith_cons_cons,
              inductionHypothesis]
  rw [asconTagMatches, cut, asconTagMatches]

/-- A decryption whose ranges lie in the frame, and whose plaintext fits the buffer. -/
theorem ascon128DecryptAt_eq (key : Key) (npub : Bytes) {frame buf : Bytes}
    {adlen ct ctlen tag taglen : Nat} (adInside : adlen ≤ frame.length)
    (ctInside : ct + ctlen ≤ frame.length) (tagInside : tag + taglen ≤ frame.length)
    (shortTag : taglen ≤ tagMax) (room : ctlen ≤ buf.length) :
    ascon128DecryptAt key npub frame adlen ct ctlen tag taglen buf =
      some (asconTagMatches
          (asconFinal (asconDecryptMessage (asconStart key npub (frame.take adlen))
            ((frame.drop ct).take ctlen)).1 key) ((frame.drop tag).take taglen),
        overlay buf (asconDecryptMessage (asconStart key npub (frame.take adlen))
          ((frame.drop ct).take ctlen)).2) := by
  unfold tagMax at shortTag
  have length : ((frame.drop ct).take ctlen).length = ctlen := by
    rw [List.length_take, List.length_drop]
    omega
  have tagLength : ((frame.drop tag).take taglen).length = taglen := by
    rw [List.length_take, List.length_drop]
    omega
  have rest : ctlen - 8 * (ctlen / 8) = ctlen % 8 := by omega
  have blocks := asconDecryptBlocksAt_eq (ctlen / 8) (asconStart key npub (frame.take adlen))
    (show ct + 8 * (ctlen / 8) ≤ frame.length by omega)
    (show ([] : Bytes).length + 8 * (ctlen / 8) ≤ buf.length by
      rw [List.length_nil]
      omega)
  have written := length_asconDecryptBlocks (ctlen / 8) (asconStart key npub (frame.take adlen))
    (frame.drop ct)
  rw [overlay_nil, List.length_nil, List.nil_append] at blocks
  simp only [ascon128DecryptAt, asconDecryptMessage, length,
    load_eq (show 0 + adlen ≤ frame.length by omega), List.drop_zero, Option.bind_eq_bind,
    Option.bind_some, blocks, load_eq (show ct + 8 * (ctlen / 8) + ctlen % 8 ≤ frame.length by omega),
    asconDecryptBlocks_take _ _ _ (show 8 * (ctlen / 8) ≤ ctlen by omega), List.drop_take,
    List.drop_drop, rest]
  generalize asconDecryptBlocks (ctlen / 8) (asconStart key npub (frame.take adlen))
    (frame.drop ct) = full at written ⊢
  have last : full.2.length + (asconDecryptLast full.1
      ((frame.drop (ct + 8 * (ctlen / 8))).take (ctlen % 8))).2.length ≤ buf.length := by
    simp only [asconDecryptLast, length_asconStoreBe, List.length_take, List.length_drop, written]
    omega
  have stored := store_overlay last
  rw [written] at stored
  simp only [stored, Option.bind_some, load_eq tagInside]
  rw [load_eq (by rw [length_asconFinal]; omega), List.drop_zero, Option.bind_some]
  have compared := asconTagMatches_take_left (asconFinal (asconDecryptLast full.1
    ((frame.drop (ct + 8 * (ctlen / 8))).take (ctlen % 8))).1 key) ((frame.drop tag).take taglen)
  rw [tagLength] at compared
  rw [compared]

/-! ### Decompression stays in its buffers -/

namespace StreamCoder

variable {coder : StreamCoder}

theorem pollLoopAt_eq (fuel : Nat) (state : coder.State) {dst written : Bytes}
    (fits : written.length ≤ dst.length) :
    coder.pollLoopAt dst.length fuel state (overlay dst written) written.length =
      some ((coder.pollLoop dst.length fuel state written).map
        fun result => (result.1, overlay dst result.2, result.2.length)) := by
  induction fuel generalizing state written with
  | zero => rfl
  | succ fuel inductionHypothesis =>
      have bounded := coder.poll_bounded state (dst.length - written.length)
      simp only [pollLoopAt, pollLoop]
      by_cases full : dst.length ≤ written.length
      · simp only [full, if_true, Drive.map]
      · rw [if_neg full, if_neg full, store_overlay (by omega)]
        simp only [Option.bind_eq_bind, Option.bind_some, ← List.length_append]
        cases (coder.poll state (dst.length - written.length)).more with
        | false => rfl
        | true =>
            simp only [if_true]
            exact inductionHypothesis _ (by rw [List.length_append]; omega)

theorem sinkLoopAt_eq {src : Bytes} {base len : Nat} (inside : base + len ≤ src.length)
    (fuel : Nat) {state : coder.State} (sunk : Nat) {dst written : Bytes}
    (drained : coder.Drained state) (fits : written.length ≤ dst.length) :
    coder.sinkLoopAt src base len dst.length fuel state sunk (overlay dst written)
        written.length =
      some ((coder.sinkLoop dst.length fuel state (((src.drop base).take len).drop sunk)
        written).map fun result => (result.1, overlay dst result.2, result.2.length)) := by
  induction fuel generalizing state sunk written with
  | zero => rfl
  | succ fuel inductionHypothesis =>
      have length : (((src.drop base).take len).drop sunk).length = len - sunk := by
        rw [List.length_drop, List.length_take, List.length_drop]
        omega
      simp only [sinkLoopAt, sinkLoop]
      by_cases taken : len ≤ sunk
      · rw [if_pos taken, if_pos (List.length_eq_zero_iff.mp (by omega))]
        rfl
      · have left : ((src.drop base).take len).drop sunk ≠ [] := by
          intro empty
          rw [empty, List.length_nil] at length
          omega
        have range : load src (base + sunk) (len - sunk) =
            some (((src.drop base).take len).drop sunk) := by
          rw [load_eq (by omega), List.drop_take, List.drop_drop]
        rw [if_neg taken, if_neg left, range]
        simp only [Option.bind_eq_bind, Option.bind_some, pollLoopAt_eq _ _ fits]
        cases polled : coder.pollLoop dst.length (dst.length + 2)
            (coder.sink state (((src.drop base).take len).drop sunk)).1 written with
        | running => rfl
        | full => rfl
        | done value =>
            obtain ⟨ready, room⟩ := pollLoop_done (coder.sink_busy state _ drained) polled
            simp only [Drive.map, List.drop_drop]
            exact inductionHypothesis _ ready room

theorem finishLoopAt_eq (fuel : Nat) (state : coder.State) {dst written : Bytes}
    (fits : written.length ≤ dst.length) :
    coder.finishLoopAt dst.length fuel state (overlay dst written) written.length =
      some ((coder.finishLoop dst.length fuel state written).map
        fun result => (overlay dst result, result.length)) := by
  induction fuel generalizing state written with
  | zero => rfl
  | succ fuel inductionHypothesis =>
      have bounded := coder.poll_bounded (coder.finish state).1 (dst.length - written.length)
      simp only [finishLoopAt, finishLoop]
      cases (coder.finish state).2 with
      | false => rfl
      | true =>
          simp only [if_true]
          by_cases full : dst.length ≤ written.length
          · rw [if_pos full, if_pos full]
            rfl
          · rw [if_neg full, if_neg full, store_overlay (by omega)]
            simp only [Option.bind_eq_bind, Option.bind_some, ← List.length_append]
            exact inductionHypothesis _ (by rw [List.length_append]; omega)

theorem driveAt_eq {src : Bytes} {base len : Nat} (inside : base + len ≤ src.length)
    (dst : Bytes) :
    coder.driveAt src base len dst dst.length =
      some ((coder.drive ((src.drop base).take len) dst.length).map
        fun result => (overlay dst result, result.length)) := by
  have length : ((src.drop base).take len).length = len := by
    rw [List.length_take, List.length_drop]
    omega
  have sunk := sinkLoopAt_eq inside (len + 1) 0 coder.reset_drained
    (show ([] : Bytes).length ≤ dst.length from Nat.zero_le _)
  rw [overlay_nil, List.length_nil, List.drop_zero] at sunk
  simp only [driveAt, drive, sunk, length, Option.bind_eq_bind, Option.bind_some]
  cases driven : coder.sinkLoop dst.length (len + 1) coder.reset ((src.drop base).take len) [] with
  | running => rfl
  | full => rfl
  | done value =>
      have room := sinkLoop_done coder.reset_drained (Nat.zero_le _) driven
      exact finishLoopAt_eq _ _ room

end StreamCoder

/-- Where a decode leaves its bytes. -/
def placed (out payload : Bytes) : Nat × Bytes :=
  (payload.length, overlay out payload)

theorem decodeAt_eq (heatshrink : Heatshrink) {src out : Bytes} {base plen : Nat}
    (flags : UInt8) (inside : base + plen ≤ src.length) (whole : out.length = decMax) :
    decodeAt heatshrink src base plen flags out decMax =
      some ((decodePayload heatshrink flags ((src.drop base).take plen)).map (placed out)) := by
  have length : ((src.drop base).take plen).length = plen := by
    rw [List.length_take, List.length_drop]
    omega
  unfold decodeAt decodePayload
  split
  · rw [decompressAt, decompress, ← whole, StreamCoder.driveAt_eq inside]
    cases heatshrink.decoder.drive ((src.drop base).take plen) out.length <;> rfl
  · rw [length]
    split
    · rfl
    · rw [load_eq inside]
      simp only [Option.bind_eq_bind, Option.bind_some]
      rw [store_front (by omega)]
      simp only [Option.bind_some, Option.map_some, placed, length]

/-! ### OnRx stays in its buffers -/

theorem headerAt_eq {input : Bytes} (long : hdr ≤ input.length) :
    ∃ h, headerAt input = some h ∧ parseHeader input = some (h, input.drop hdr) := by
  unfold hdr at long
  match input, long with
  | src :: dst :: flags :: seq :: ack :: epoch :: sackHi :: sackLo :: len :: aux :: body, _ =>
      exact ⟨_, rfl, rfl⟩

/-- What the AEAD reads of a sealed frame. -/
def cutSealed (tagLen : Nat) (input : Bytes) (h : Header) : Sealed where
  ctr := loadBe ((input.drop hdr).take ctrW)
  ad := input.take (hdr + ctrW)
  ct := (input.drop (hdr + ctrW)).take h.len.toNat
  tag := (input.drop (hdr + ctrW + h.len.toNat)).take tagLen

/-- The two length checks of a sealed frame. -/
theorem splitSealed_drop (tagLen : Nat) (input : Bytes) (h : Header) :
    splitSealed tagLen input h (input.drop hdr) =
      if input.length < hdr + ctrW then none
      else if input.length < hdr + ctrW + h.len.toNat + tagLen then none
      else some (cutSealed tagLen input h) := by
  unfold splitSealed hdr ctrW
  simp only [List.length_drop, List.drop_drop]
  by_cases counted : input.length < 10 + 8
  · rw [if_pos (by omega), if_pos counted]
  · rw [if_neg (by omega), if_neg counted]
    by_cases announced : input.length < 10 + 8 + h.len.toNat + tagLen
    · rw [if_pos (by omega), if_pos announced]
    · rw [if_neg (by omega), if_neg announced]
      rfl

theorem parseHeader_short {input : Bytes} (short : input.length < hdr) :
    parseHeader input = none := by
  unfold parseHeader
  split
  · simp only [List.length_cons, hdr] at short
    omega
  · rfl

namespace Link

variable {RING : Nat}

theorem storeFrameAt_eq (stack : Stack) (link : Link RING) (seq : UInt8) {payload : Option Bytes}
    (short : ∀ bytes, payload = some bytes → bytes.length ≤ decMax) :
    link.storeFrameAt stack seq (some (payload.map (placed stack.dec))) =
      some (link.storeFrame seq payload) := by
  unfold storeFrameAt storeFrame
  split
  · rfl
  · cases payload with
    | none => rfl
    | some bytes =>
        have fits := short bytes rfl
        simp only [Option.map_some, placed, Option.bind_eq_bind, Option.bind_some]
        rw [load_overlay (by rw [stack.dec_length]; exact fits)]
        simp only [Option.bind_some]
        rw [store_front (by rw [stack.slot_length]; exact fits)]
        rfl

theorem acceptAt_eq (stack : Stack) (link : Link RING) (h : Header) {payload : Option Bytes}
    (short : ∀ bytes, payload = some bytes → bytes.length ≤ decMax) :
    link.acceptAt stack h (some (payload.map (placed stack.dec))) =
      some (link.accept h payload) := by
  simp only [acceptAt, accept]
  split
  · simp only [receiveDataAt, receiveData]
    split
    · rw [storeFrameAt_eq stack _ _ short]
      rfl
    · rfl
  · rfl

/-- A sealed frame whose announced lengths fit the received bytes: then the plaintext fits
`buf`, because header, counter, plaintext and tag fit a frame. -/
theorem aeadOpenAt_eq (heatshrink : Heatshrink) (stack : Stack) (link : Link RING)
    {input : Bytes} (h : Header) (ctr : UInt64) (short : input.length ≤ maxFrame)
    (shortTag : link.cfg.tagLen.toNat ≤ tagMax)
    (fits : hdr + ctrW + h.len.toNat + link.cfg.tagLen.toNat ≤ input.length) :
    link.aeadOpenAt heatshrink stack input (hdr + ctrW) h ctr =
      some ((link.aeadOpen heatshrink h
        { cutSealed link.cfg.tagLen.toNat input h with ctr := ctr }).map id
          (Except.map (placed stack.dec))) := by
  have room : h.len.toNat ≤ stack.buf.length := by
    rw [stack.buf_length]
    unfold maxFrame tagMax at short
    omega
  simp only [aeadOpenAt, aeadOpen, cutSealed]
  cases link.cfg.key with
  | none => rfl
  | some key =>
      simp only [ascon128DecryptAt_eq key (buildNonce h.src h.epoch ctr)
        (show hdr + ctrW ≤ input.length by omega)
        (show hdr + ctrW + h.len.toNat ≤ input.length by omega) fits shortTag room,
        Option.bind_eq_bind, Option.bind_some, ascon128Decrypt]
      have length := length_asconDecryptMessage
        (asconStart key (buildNonce h.src h.epoch ctr) (input.take (hdr + ctrW)))
        ((input.drop (hdr + ctrW)).take h.len.toNat)
      generalize asconDecryptMessage
        (asconStart key (buildNonce h.src h.epoch ctr) (input.take (hdr + ctrW)))
        ((input.drop (hdr + ctrW)).take h.len.toNat) = message at length ⊢
      have plain : message.2.length = h.len.toNat := by
        rw [length, List.length_take, List.length_drop]
        omega
      have decoded := decodeAt_eq heatshrink h.flags
        (show 0 + h.len.toNat ≤ (overlay stack.buf message.2).length by
          rw [length_overlay (by omega)]
          omega) stack.dec_length
      rw [List.drop_zero, ← plain, take_overlay, plain] at decoded
      split
      · dsimp only
        split
        · rw [decoded]
          simp only [Option.bind_some]
          cases decodePayload heatshrink h.flags message.2 <;> rfl
        · rfl
      · rfl

/-- Every received frame of at most `maxFrame` bytes is processed inside its buffers, and as
the list model says. -/
theorem onRxAt_eq (heatshrink : Heatshrink) (stack : Stack) (link : Link RING)
    (shortTag : link.cfg.tagLen.toNat ≤ tagMax) {input : Bytes}
    (short : input.length ≤ maxFrame) :
    link.onRxAt heatshrink stack input = some (link.onRx heatshrink input) := by
  unfold onRxAt onRx
  split
  next tooShort => rw [parseHeader_short tooShort]
  next long =>
    obtain ⟨h, read, parsed⟩ := headerAt_eq (Nat.le_of_not_lt long)
    simp only [read, parsed, Option.bind_eq_bind, Option.bind_some]
    split
    · rfl
    · have tagged : (link.trackEpoch h.epoch).cfg.tagLen.toNat ≤ tagMax := by
        rw [cfg_trackEpoch]
        exact shortTag
      generalize link.trackEpoch h.epoch = tracked at tagged ⊢
      unfold authenticate
      split
      · rfl
      · split
        next sealed =>
          rw [splitSealed_drop]
          split
          · rfl
          next counted =>
            rw [load_eq (Nat.le_of_not_lt counted), Option.bind_some]
            split
            · rfl
            next fits =>
              have cut := aeadOpenAt_eq heatshrink stack tracked h
                (loadBe ((input.drop hdr).take ctrW)) short tagged (Nat.le_of_not_lt fits)
              change _ = some ((tracked.aeadOpen heatshrink h
                (cutSealed tracked.cfg.tagLen.toNat input h)).map id _) at cut
              rw [cut]
              dsimp only
              cases opened : (tracked.aeadOpen heatshrink h
                (cutSealed tracked.cfg.tagLen.toNat input h)).2 with
              | error exit =>
                  simp only [Option.bind_some, Prod.map_snd, Prod.map_fst, opened, Except.map, id]
              | ok payload =>
                  have accepted := acceptAt_eq stack (tracked.aeadOpen heatshrink h
                    (cutSealed tracked.cfg.tagLen.toNat input h)).1 h
                    (show ∀ bytes, some payload = some bytes → bytes.length ≤ decMax by
                      intro bytes same
                      cases same
                      exact length_aeadOpen_le opened)
                  rw [Option.map_some] at accepted
                  simp only [Option.bind_some, Prod.map_snd, Prod.map_fst, opened, Except.map, id,
                    accepted]
        next plain =>
          have length : (input.drop hdr).length = input.length - hdr := List.length_drop
          have lenBelow := h.len.toNat_lt
          have cut : (if (input.drop hdr).length < h.len.toNat then
              UInt8.ofNat (input.drop hdr).length else h.len) =
                if input.length < hdr + h.len.toNat then UInt8.ofNat (input.length - hdr)
                else h.len := by
            rw [length]
            by_cases truncated : input.length < hdr + h.len.toNat
            · rw [if_pos truncated, if_pos (by omega)]
            · rw [if_neg truncated, if_neg (by omega)]
          have inside : hdr + (if input.length < hdr + h.len.toNat then
              UInt8.ofNat (input.length - hdr) else h.len).toNat ≤ input.length := by
            split
            · rw [UInt8.toNat_ofNat']
              omega
            · omega
          rw [decodeAt_eq heatshrink h.flags inside stack.dec_length,
            acceptAt_eq stack tracked h fun bytes decoded => length_decodePayload_le decoded]
          simp only [cut, Option.bind_some]

/-- Whatever `Init` and any later calls made of a link, no frame makes it read or write
outside a buffer, and decompression returns, with at most `cap` bytes or -1. -/
theorem hostile_frame_bounded (heatshrink : Heatshrink) (stack : Stack) (memory : Link RING)
    (c : Config) (ops : List Op) {input : Bytes} (short : input.length ≤ maxFrame) :
    ((memory.init c).run heatshrink ops).onRxAt heatshrink stack input =
        some (((memory.init c).run heatshrink ops).onRx heatshrink input) ∧
      ∀ src cap,
        (∃ out, heatshrink.decoder.drive src cap = .done out ∧
            decompress heatshrink src cap = some out ∧ out.length ≤ cap) ∨
          (heatshrink.decoder.drive src cap = .full ∧ decompress heatshrink src cap = none) := by
  refine ⟨onRxAt_eq heatshrink stack _ (tagLen_run_init_le heatshrink memory c ops) short, ?_⟩
  intro src cap
  unfold decompress
  cases driven : heatshrink.decoder.drive src cap with
  | running => exact absurd driven (StreamCoder.drive_stops src cap)
  | full => exact Or.inr ⟨rfl, rfl⟩
  | done out => exact Or.inl ⟨out, rfl, rfl, StreamCoder.length_drive driven⟩

/-- Buffers that hold zeros. -/
def zeroStack : Stack where
  buf := List.replicate (maxPay + 16) 0
  dec := List.replicate decMax 0
  slot := List.replicate decMax 0
  buf_length := List.length_replicate
  dec_length := List.length_replicate
  slot_length := List.length_replicate

theorem hostile_frame_bounded_truncated :
    (((zeroed .default : Link 4).init .default).run .copying []).onRxAt .copying zeroStack
          [2, 1, 1, 0, 0, 1, 0, 0, 255, 0, 7] =
        some ((((zeroed .default : Link 4).init .default).run .copying []).onRx .copying
          [2, 1, 1, 0, 0, 1, 0, 0, 255, 0, 7]) ∧
      ∀ src cap,
        (∃ out, Heatshrink.copying.decoder.drive src cap = .done out ∧
            decompress .copying src cap = some out ∧ out.length ≤ cap) ∨
          (Heatshrink.copying.decoder.drive src cap = .full ∧ decompress .copying src cap = none) :=
  hostile_frame_bounded .copying zeroStack _ .default [] (by decide)

end Link

end LoraSerial.LinkLayer
