import LoraSerial.Library.SequenceNumber
import LoraSerial.LinkLayer.SendWindow
import LoraSerial.LinkLayer.ReceiveWindow

/-!
Owns the representation invariant of the link layer: window numbering, payload
sizes, the unacked front, receive-slot numbering and ring indices. It holds after
`Init` on any memory and is preserved by every call, whatever bytes `OnRx` is fed.
-/

namespace LoraSerial.LinkLayer

open Library Library.SequenceNumber

/-- The send window `win_[0..inflight_)` with its two counters. -/
structure SendWindowValid (win : List Frame) (baseSeq nextSeq : UInt8) : Prop where
  inflight_le : win.length ≤ maxWin
  seq_eq : ∀ index f, win[index]? = some f → f.seq = baseSeq + UInt8.ofNat index
  next_eq : nextSeq = baseSeq + UInt8.ofNat win.length
  payload : ∀ f ∈ win, 1 ≤ f.raw.length ∧ f.raw.length ≤ maxPay
  front_unacked : ∀ f, win.head? = some f → f.acked = false

/-- The receive slots relative to the next sequence number. -/
structure ReceiveWindowValid (rx : Fin 16 → RxSlot) (rxNext : UInt8) : Prop where
  slot_eq : ∀ slot, (rx slot).received = true → (rx slot).seq.toNat % maxWin = slot.val
  ahead : ∀ slot, (rx slot).received = true → ((rx slot).seq - rxNext).toNat < maxWin
  decoded : ∀ slot, (rx slot).received = true → (rx slot).buf.length ≤ decMax

namespace Link

variable {RING : Nat}

/-- The representation invariant. -/
structure Valid (link : Link RING) : Prop where
  window_le : link.cfg.window.toNat ≤ maxWin
  send : SendWindowValid link.win link.baseSeq link.nextSeq
  receive : ReceiveWindowValid link.rx link.rxNext
  sRing : link.sRing.WellFormed
  rRing : link.rRing.WellFormed

end Link

/-! ### Send window -/

namespace SendWindowValid

theorem empty (baseSeq : UInt8) : SendWindowValid [] baseSeq baseSeq where
  inflight_le := Nat.zero_le _
  seq_eq := by simp
  next_eq := (UInt8.add_zero baseSeq).symm
  payload := by simp
  front_unacked := by simp

variable {win : List Frame} {baseSeq nextSeq : UInt8}

/-- Marks other than `acked` are irrelevant. -/
theorem congr (valid : SendWindowValid win baseSeq nextSeq) {marked : List Frame}
    (sameCargo : marked.map Frame.cargo = win.map Frame.cargo)
    (sameAcked : marked.map Frame.acked = win.map Frame.acked) :
    SendWindowValid marked baseSeq nextSeq where
  inflight_le := by
    rw [length_eq_of_map_cargo sameCargo]
    exact valid.inflight_le
  seq_eq := by
    intro index f found
    obtain ⟨g, position, same⟩ := getElem?_of_map_cargo sameCargo found
    rw [← valid.seq_eq index g position]
    exact (congrArg Prod.fst same).symm
  next_eq := by
    rw [length_eq_of_map_cargo sameCargo]
    exact valid.next_eq
  payload := by
    intro f member
    obtain ⟨index, found⟩ := List.mem_iff_getElem?.mp member
    obtain ⟨g, position, same⟩ := getElem?_of_map_cargo sameCargo found
    rw [show f.raw = g.raw from (congrArg Prod.snd same).symm]
    exact valid.payload g (List.mem_of_getElem? position)
  front_unacked := by
    intro f first
    have heads := congrArg List.head? sameAcked
    simp only [List.head?_map, first, Option.map_some] at heads
    obtain ⟨g, position, same⟩ := Option.map_eq_some_iff.mp heads.symm
    rw [← same]
    exact valid.front_unacked g position

/-- A new frame with the next number, unacked, extends the window. -/
theorem append (valid : SendWindowValid win baseSeq nextSeq) (room : win.length < maxWin)
    {f : Frame} (numbered : f.seq = nextSeq) (fresh : f.acked = false)
    (sized : 1 ≤ f.raw.length ∧ f.raw.length ≤ maxPay) :
    SendWindowValid (win ++ [f]) baseSeq (nextSeq + 1) where
  inflight_le := by
    rw [List.length_append, List.length_singleton]
    omega
  seq_eq := by
    intro index g found
    rcases Nat.lt_trichotomy index win.length with inside | last | outside
    · rw [List.getElem?_append_left inside] at found
      exact valid.seq_eq index g found
    · rw [last, List.getElem?_concat_length] at found
      cases found
      rw [numbered, valid.next_eq, last]
    · rw [List.getElem?_eq_none (by rw [List.length_append, List.length_singleton]; omega)] at found
      cases found
  next_eq := by
    rw [List.length_append, List.length_singleton, ofNat_succ, valid.next_eq, UInt8.add_assoc]
  payload := by
    intro g member
    rcases List.mem_append.mp member with old | new
    · exact valid.payload g old
    · rw [List.mem_singleton.mp new]
      exact sized
  front_unacked := by
    intro g first
    cases win with
    | nil =>
        cases first
        exact fresh
    | cons head tail => exact valid.front_unacked g first

end SendWindowValid

/-! ### Receive window -/

namespace ReceiveWindowValid

variable {rx : Fin 16 → RxSlot} {rxNext : UInt8}

theorem cleared (rx : Fin 16 → RxSlot) (rxNext : UInt8) :
    ReceiveWindowValid (Link.clearReceived rx) rxNext where
  slot_eq := fun _ received => by cases received
  ahead := fun _ received => by cases received
  decoded := fun _ received => by cases received

/-- Releasing the slot of `rxNext` lets the window advance by one. -/
theorem release (valid : ReceiveWindowValid rx rxNext) (slot : RxSlot)
    (released : slot.received = false) :
    ReceiveWindowValid (Function.update rx (slotOf rxNext) slot) (rxNext + 1) := by
  have elsewhere : ∀ index, (Function.update rx (slotOf rxNext) slot index).received = true →
      index ≠ slotOf rxNext ∧ (rx index).received = true := by
    intro index received
    by_cases same : index = slotOf rxNext
    · rw [same, Function.update_self, released] at received
      cases received
    · rw [Function.update_of_ne same] at received
      exact ⟨same, received⟩
  constructor <;> intro index received <;> obtain ⟨different, original⟩ := elsewhere index received
  · rw [Function.update_of_ne different]
    exact valid.slot_eq index original
  · rw [Function.update_of_ne different]
    have apart : (rx index).seq ≠ rxNext := by
      intro same
      exact different (slotOf_eq_iff.mpr (same ▸ valid.slot_eq index original)).symm
    have shorter := toNat_sub_succ apart
    have near := valid.ahead index original
    omega
  · rw [Function.update_of_ne different]
    exact valid.decoded index original

/-- A frame of the window takes its own slot. -/
theorem store (valid : ReceiveWindowValid rx rxNext) {seq : UInt8} {buf : Bytes}
    (near : (seq - rxNext).toNat < maxWin) (short : buf.length ≤ decMax) :
    ReceiveWindowValid
      (Function.update rx (slotOf seq) { buf := buf, seq := seq, received := true }) rxNext := by
  constructor <;> intro index received <;> by_cases same : index = slotOf seq
  · rw [same, Function.update_self, slotOf_val]
    rfl
  · rw [Function.update_of_ne same] at received ⊢
    exact valid.slot_eq index received
  · rw [same, Function.update_self]
    exact near
  · rw [Function.update_of_ne same] at received ⊢
    exact valid.ahead index received
  · rw [same, Function.update_self]
    exact short
  · rw [Function.update_of_ne same] at received ⊢
    exact valid.decoded index received

end ReceiveWindowValid

/-! ### Each function keeps the invariant -/

namespace Link

variable {RING : Nat}

theorem clampWindow_le (window : UInt8) : (clampWindow window).toNat ≤ maxWin := by
  unfold clampWindow
  simp only
  split <;> split <;> simp_all [UInt8.lt_iff_toNat_lt, maxWin]

/-- `Init` establishes the invariant on any memory. -/
theorem valid_init (positive : 0 < RING) (link : Link RING) (c : Config) : (link.init c).Valid where
  window_le := clampWindow_le c.window
  send := SendWindowValid.empty 0
  receive := ReceiveWindowValid.cleared _ _
  sRing := RingBuffer.WellFormed.clear _ positive
  rRing := RingBuffer.WellFormed.clear _ positive

namespace Valid

variable {link : Link RING}

theorem ring_pos (valid : link.Valid) : 0 < RING :=
  Nat.zero_lt_of_lt valid.sRing.head_lt

theorem newSession (valid : link.Valid) : link.newSession.Valid where
  window_le := valid.window_le
  send := SendWindowValid.empty 0
  receive := ReceiveWindowValid.cleared _ _
  sRing := RingBuffer.WellFormed.clear _ valid.ring_pos
  rRing := RingBuffer.WellFormed.clear _ valid.ring_pos

theorem setTiming (valid : link.Valid) (window : UInt8) (retransmitMs : UInt32) :
    (link.setTiming window retransmitMs).Valid :=
  { valid with window_le := clampWindow_le window }

theorem write (valid : link.Valid) (d : Bytes) : (link.write d).2.Valid := by
  induction d generalizing link with
  | nil => exact valid
  | cons byte rest inductionHypothesis =>
      rw [Link.write]
      split
      · exact inductionHypothesis { valid with sRing := valid.sRing.push byte }
      · exact valid

theorem beginTurn (valid : link.Valid) : link.beginTurn.Valid := by
  have sameCargo : link.beginTurn.win.map Frame.cargo = link.win.map Frame.cargo := by
    simp [Link.beginTurn, Frame.cargo]
  have sameAcked : link.beginTurn.win.map Frame.acked = link.win.map Frame.acked := by
    simp [Link.beginTurn]
  exact { valid with send := valid.send.congr sameCargo sameAcked }

theorem encode (valid : link.Valid) (heatshrink : Heatshrink) (cap : Nat) (flags seq : UInt8)
    (raw : Bytes) : (link.encode heatshrink cap flags seq raw).link.Valid := by
  obtain ⟨ctr, persist, encoded⟩ := link.encode_link heatshrink cap flags seq raw
  rw [encoded]
  exact { valid with }

theorem frameNext (valid : link.Valid) (ready : link.canFrame = true) : link.frameNext.Valid := by
  have bound := valid.window_le
  simp only [canFrame, Bool.and_eq_true, decide_eq_true_eq] at ready
  obtain ⟨room, nonempty⟩ := ready
  obtain ⟨wellFormed, -, short⟩ := popPayload_spec maxPay valid.sRing
  have long := popPayload_nonempty (show 0 < maxPay by decide) nonempty
  exact { valid with
    sRing := wellFormed
    send := valid.send.append (by omega) rfl rfl ⟨long, short⟩ }

theorem fillWindow (valid : link.Valid) : link.fillWindow.Valid :=
  fillWindow_induction (fun _ ready valid => valid.frameNext ready) valid

theorem markSent (valid : link.Valid) (now : UInt32) (f : Frame) (pick : Nat) :
    (link.markSent now f pick).Valid :=
  { valid with send := valid.send.congr (map_cargo_modify _ _ _) (map_acked_modify _ _ _) }

theorem nextTx (valid : link.Valid) (heatshrink : Heatshrink) (cap : Nat) (now : UInt32) :
    (link.nextTx heatshrink cap now).link.Valid := by
  have filled := valid.fillWindow
  simp only [Link.nextTx]
  split
  next f pick _ =>
    have sent := (filled.markSent now f pick).encode heatshrink cap
      (if (link.fillWindow.markSent now f pick).moreToSend pick then fData ||| fMore else fData)
      f.seq f.raw
    exact { sent with }
  next =>
    split
    · have owing : Valid { link.fillWindow with ackSentTurn := true, ackPending := false } :=
        { filled with }
      exact owing.encode heatshrink cap 0 0 []
    · exact filled

theorem drainOne (valid : link.Valid) (ready : link.canDrain = true) : link.drainOne.Valid := by
  obtain ⟨ring, wellFormed, -, drained⟩ := drainOne_eq valid.rRing ready
  rw [drained]
  exact { valid with
    rRing := wellFormed
    receive := valid.receive.release _ rfl }

theorem drainInOrder (valid : link.Valid) : link.drainInOrder.Valid :=
  drainInOrder_induction (fun _ ready valid => valid.drainOne ready) valid

theorem read (valid : link.Valid) (max : Nat) : (link.read max).2.Valid := by
  obtain ⟨ring, wellFormed, -, left⟩ := readLoop_spec max link valid.rRing
  simp only [Link.read, left]
  exact drainInOrder { valid with rRing := wellFormed }

theorem ackProcess (valid : link.Valid) (ack : UInt8) (sack : UInt16) :
    (link.ackProcess ack sack).Valid := by
  have removed := link.ackedFront_le ack sack
  have cargo := link.map_cargo_ackProcess ack sack
  have front : ∀ f, (link.ackProcess ack sack).win.head? = some f → f.acked = false :=
    fun f => head?_ackProcess
  have length : (link.ackProcess ack sack).win.length =
      link.win.length - link.ackedFront ack sack := by
    simpa using congrArg List.length cargo
  have original : ∀ index f, (link.ackProcess ack sack).win[index]? = some f →
      ∃ g, link.win[link.ackedFront ack sack + index]? = some g ∧ g.cargo = f.cargo := by
    intro index f found
    rw [← List.map_drop] at cargo
    obtain ⟨g, position, same⟩ := getElem?_of_map_cargo cargo found
    rw [List.getElem?_drop] at position
    exact ⟨g, position, same⟩
  have window : SendWindowValid (link.ackProcess ack sack).win
      (link.baseSeq + UInt8.ofNat (link.ackedFront ack sack)) link.nextSeq :=
    { inflight_le := by
        rw [length]
        exact (Nat.sub_le _ _).trans valid.send.inflight_le
      seq_eq := by
        intro index f found
        obtain ⟨g, position, same⟩ := original index f found
        rw [show f.seq = g.seq from (congrArg Prod.fst same).symm,
          valid.send.seq_eq _ g position, ofNat_add, UInt8.add_assoc]
      next_eq := by
        rw [length, valid.send.next_eq, UInt8.add_assoc, ← ofNat_add,
          Nat.add_sub_cancel' removed]
      payload := by
        intro f member
        obtain ⟨index, found⟩ := List.mem_iff_getElem?.mp member
        obtain ⟨g, position, same⟩ := original index f found
        rw [show f.raw = g.raw from (congrArg Prod.snd same).symm]
        exact valid.send.payload g (List.mem_of_getElem? position)
      front_unacked := front }
  rw [ackProcess_link] at window ⊢
  exact { valid with send := window }

theorem storeFrame (valid : link.Valid) {seq : UInt8} {decoded : Option Bytes}
    (near : (seq - link.rxNext).toNat < maxWin)
    (short : ∀ buf, decoded = some buf → buf.length ≤ decMax) :
    (link.storeFrame seq decoded).Valid := by
  rcases link.storeFrame_cases seq decoded with same | ⟨buf, payload, -, stored⟩
  · rw [same]
    exact valid
  · rw [stored]
    exact { valid with receive := valid.receive.store near (short buf payload) }

theorem receiveData (valid : link.Valid) (seq : UInt8) {decoded : Option Bytes}
    (short : ∀ buf, decoded = some buf → buf.length ≤ decMax) :
    (link.receiveData seq decoded).Valid := by
  rw [Link.receiveData]
  split
  next near => exact { (valid.storeFrame near short).drainInOrder with }
  next => exact { valid with }

theorem accept (valid : link.Valid) (h : Header) {decoded : Option Bytes}
    (short : ∀ buf, decoded = some buf → buf.length ≤ decMax) :
    (link.accept h decoded).Valid := by
  have trusted : Valid { link with
      rxCtrl := h.flags &&& ctrlMask, rxAux := h.aux, gotValidRx := true } := { valid with }
  rw [Link.accept]
  split
  · exact (trusted.ackProcess h.ack h.sack).receiveData h.seq short
  · exact trusted.ackProcess h.ack h.sack

theorem trackEpoch (valid : link.Valid) (epoch : UInt8) : (link.trackEpoch epoch).Valid := by
  rcases link.trackEpoch_cases epoch with ⟨tracked, -⟩ | ⟨tracked, -⟩ <;> rw [tracked]
  · exact { valid with }
  · exact { valid with
      send := SendWindowValid.empty 0
      receive := ReceiveWindowValid.cleared _ _ }

end Valid

/-! ### Decoded lengths -/

theorem length_decodePayload_le {heatshrink : Heatshrink} {flags : UInt8} {buf payload : Bytes}
    (decoded : decodePayload heatshrink flags buf = some payload) : payload.length ≤ decMax := by
  unfold decodePayload at decoded
  split at decoded
  · exact length_decompress_le decoded
  · split at decoded
    · cases decoded
    · cases decoded
      omega

theorem length_aeadOpen_le {heatshrink : Heatshrink} {link : Link RING} {h : Header} {s : Sealed}
    {payload : Bytes} (opened : (link.aeadOpen heatshrink h s).2 = .ok payload) :
    payload.length ≤ decMax := by
  unfold aeadOpen at opened
  split at opened
  · cases opened
  · split at opened
    · cases opened
    · dsimp only at opened
      split at opened
      · split at opened
        · cases opened
        next decoded =>
          cases opened
          exact length_decodePayload_le decoded
      · cases opened

theorem length_authenticate_le {heatshrink : Heatshrink} {link : Link RING} {input : Bytes}
    {h : Header} {body payload : Bytes}
    (authentic : (link.authenticate heatshrink input h body).2 = .ok (some payload)) :
    payload.length ≤ decMax := by
  unfold authenticate at authentic
  split at authentic
  · cases authentic
  · split at authentic
    · split at authentic
      · cases authentic
      · dsimp only at authentic
        split at authentic
        · cases authentic
        next opened =>
          cases authentic
          exact length_aeadOpen_le opened
    · simp only [Except.ok.injEq] at authentic
      exact length_decodePayload_le authentic

/-! ### Every call, every run -/

theorem Valid.onRx {link : Link RING} (valid : link.Valid) (heatshrink : Heatshrink)
    (input : Bytes) : (link.onRx heatshrink input).link.Valid := by
  unfold Link.onRx
  split
  · exact valid
  next h body _ =>
    split
    · exact valid
    · dsimp only
      obtain ⟨seeded, max, window, same⟩ :=
        (link.trackEpoch h.epoch).authenticate_link heatshrink input h body
      have tracked := valid.trackEpoch h.epoch
      have opened : ((link.trackEpoch h.epoch).authenticate heatshrink input h body).1.Valid := by
        rw [same]
        exact { tracked with }
      split
      · exact opened
      next authentic =>
        refine opened.accept h ?_
        rintro buf rfl
        exact length_authenticate_le authentic

/-- Every public call keeps the invariant. -/
theorem Valid.apply {link : Link RING} (valid : link.Valid) (heatshrink : Heatshrink) (op : Op) :
    (link.apply heatshrink op).Valid := by
  cases op with
  | init c => exact valid_init valid.ring_pos link c
  | newSession => exact valid.newSession
  | setTiming window retransmitMs => exact valid.setTiming window retransmitMs
  | write d => exact valid.write d
  | read max => exact valid.read max
  | takeGotData => exact { valid with }
  | takePeerReset => exact { valid with }
  | takeValidRx => exact { valid with }
  | setCtrlTx bits => exact { valid with }
  | setAuxTx aux => exact { valid with }
  | beginTurn => exact valid.beginTurn
  | nextTx cap now => exact valid.nextTx heatshrink cap now
  | makePoll cap => exact valid.encode heatshrink cap 0 0 []
  | onRx input => exact valid.onRx heatshrink input

theorem Valid.run {link : Link RING} (valid : link.Valid) (heatshrink : Heatshrink)
    (ops : List Op) : (link.run heatshrink ops).Valid := by
  induction ops generalizing link with
  | nil => exact valid
  | cons op rest inductionHypothesis => exact inductionHypothesis (valid.apply heatshrink op)

/-- Every run that begins with `Init`, on any memory and with any bytes fed to
`OnRx`, keeps the representation invariant. -/
theorem valid_run_init (positive : 0 < RING) (heatshrink : Heatshrink) (memory : Link RING)
    (c : Config) (ops : List Op) : ((memory.init c).run heatshrink ops).Valid :=
  (valid_init positive memory c).run heatshrink ops

/-- A run that writes, sends, shrinks the window and hears a forged ack. -/
theorem valid_run_init_forged :
    (((zeroed Config.default : Link 64).init Config.default).run Heatshrink.copying
      [.write [1, 2, 3], .nextTx 255 0, .setTiming 1 9, .onRx [7, 255, 1, 9, 1, 3, 255, 255, 1, 0, 5],
        .read 4]).Valid :=
  valid_run_init (by decide) Heatshrink.copying (zeroed Config.default) Config.default _

end Link

end LoraSerial.LinkLayer
