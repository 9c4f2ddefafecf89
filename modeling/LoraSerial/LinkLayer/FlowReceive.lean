import LoraSerial.LinkLayer.FlowSend

/-!
Owns what the calls of the receiving end do to one direction: a transmission
reports what was delivered and what is held, draining and reading deliver held
frames in order, a frame of the sender is held when its number modulo 256 lies in
the window, and ignored otherwise.
-/

namespace LoraSerial.LinkLayer

open Library Library.SequenceNumber
open Library.SelectiveRepeat (State Data Ack Step)

/-! ### The bitmap -/

theorem sackBit_or (left right : UInt16) (k : Nat) :
    sackBit (left ||| right) k = (sackBit left k || sackBit right k) := by
  have split : ∀ mask : UInt16, (left ||| right) &&& mask = (left &&& mask) ||| (right &&& mask) := by
    intro mask
    apply UInt16.toNat_inj.mp
    simp only [UInt16.toNat_and, UInt16.toNat_or, Nat.and_or_distrib_right]
  rw [Bool.eq_iff_iff]
  simp only [sackBit, bne_iff_ne, ne_eq, Bool.or_eq_true, split, UInt16.or_eq_zero_iff]
  tauto

theorem sackBit_one : ∀ j < maxWin - 1, ∀ k < maxWin - 1,
    sackBit (1 <<< UInt16.ofNat j) k = decide (j = k) := by
  decide

/-- A set bit stands for a buffered frame. -/
theorem Link.holds_of_sackBit {RING : Nat} {link : Link RING} {k : Nat} (below : k < maxWin - 1)
    (reported : sackBit link.sackBitmap k = true) :
    link.holds (link.rxNext + 1 + UInt8.ofNat k) = true := by
  have collected : ∀ (bits : List Nat) (b : UInt16), (∀ j ∈ bits, j < maxWin - 1) →
      sackBit (bits.foldl (fun b j => if link.holds (link.rxNext + 1 + UInt8.ofNat j) then
        b ||| (1 <<< UInt16.ofNat j) else b) b) k = true →
      sackBit b k = true ∨ link.holds (link.rxNext + 1 + UInt8.ofNat k) = true := by
    intro bits
    induction bits with
    | nil => exact fun b _ found => Or.inl found
    | cons j rest inductionHypothesis =>
        intro b range found
        rw [List.foldl_cons] at found
        have later := inductionHypothesis _ (fun i member =>
          range i (List.mem_cons_of_mem _ member)) found
        split at later
        next buffered =>
          rw [sackBit_or, sackBit_one j (range j List.mem_cons_self) k below] at later
          rcases later with set | held
          · rcases Bool.or_eq_true_iff.mp set with earlier | same
            · exact Or.inl earlier
            · exact Or.inr (of_decide_eq_true same ▸ buffered)
          · exact Or.inr held
        next => exact later
  have collected := collected (List.range (maxWin - 1)) 0 (fun j => List.mem_range.mp) reported
  refine collected.resolve_left fun set => ?_
  rw [sackBit, UInt16.zero_and] at set
  exact absurd set (by decide)

/-! ### Reports -/

variable {S R : Nat} {heatshrink : Heatshrink}

/-- Every transmission reports what was delivered and what is held. -/
theorem Emits.carriesAck {link : Link R} {win : List Frame} {framed : List Bytes} {read : Bytes}
    {s : State} {bytes : Bytes} (receives : Receives link framed read s)
    (protocol : SelectiveRepeat.Invariant maxWin s)
    (emits : Emits heatshrink link win (some bytes)) :
    CarriesAck link.myEpoch ⟨s.delivered, s.held⟩ bytes := by
  have encoded : ∃ (base : Link R) (cap : Nat) (flags seq : UInt8) (raw : Bytes),
      base.receiveView = link.receiveView ∧ base.wireView = link.wireView ∧
        (base.encode heatshrink cap flags seq raw).frame = some bytes := by
    generalize emitted : some bytes = frame at emits
    cases emits with
    | silent => cases emitted
    | bare base cap receive wire => exact ⟨base, cap, 0, 0, [], receive, wire, rfl⟩
    | data base cap flags index f receive wire kind found =>
        exact ⟨base, cap, flags, f.seq, f.raw, receive, wire, rfl⟩
  obtain ⟨base, cap, flags, seq, raw, receive, wire, encoded⟩ := encoded
  have receives : Receives base framed read s := receives.of_receiveView receive
  obtain ⟨body, parsed⟩ := Link.parseHeader_encode encoded
  refine ⟨_, body, parsed, congrArg Prod.snd wire, receives.next, fun k below reported => ?_⟩
  have buffered : base.holds (base.rxNext + 1 + UInt8.ofNat k) = true :=
    Link.holds_of_sackBit below reported
  rw [receives.next, show UInt8.ofNat s.delivered + 1 + UInt8.ofNat k =
    UInt8.ofNat (s.delivered + 1 + k) by rw [ofNat_add, ofNat_succ]] at buffered
  unfold maxWin at below
  exact (receives.of_holds protocol buffered (by omega) (by omega)).1

namespace Flow

variable {sender : End S} {receiver : End R} {s : State}

theorem report (flow : Flow heatshrink sender receiver s) {win : List Frame}
    {frame : Option Bytes} (emits : Emits heatshrink receiver.link win frame) :
    Flows heatshrink sender { receiver with air := receiver.air ++ frame.toList } := by
  cases frame with
  | none => exact ⟨s, { flow with acks := by simpa using flow.acks }⟩
  | some bytes =>
      have carries := emits.carriesAck flow.receives flow.protocol
      exact ⟨_, { flow with
        protocol := flow.protocol.step .report
        sends := { flow.sends with }
        receives := { flow.receives with }
        acks := List.rel_append flow.acks (.cons carries .nil) }⟩

theorem nextTx_receiver (flow : Flow heatshrink sender receiver s) (cap : Nat) (now : UInt32) :
    Flows heatshrink sender (receiver.call heatshrink (.nextTx cap now)) := by
  have valid := flow.receiver_valid.nextTx heatshrink cap now
  obtain ⟨_, _, _, _, _, _, _, _, _, sent⟩ := receiver.link.nextTx_link heatshrink cap now
  obtain ⟨t, flow⟩ := flow.report (receiver.link.nextTx_emits heatshrink cap now)
  refine ⟨t, flow.receiver_congr valid (flow.receives.of_receiveView ?_) ?_ rfl⟩
  all_goals
    rw [End.call, sent]
    rfl

theorem makePoll_receiver (flow : Flow heatshrink sender receiver s) (cap : Nat) :
    Flows heatshrink sender (receiver.call heatshrink (.makePoll cap)) := by
  obtain ⟨ctr, persist, sent⟩ := receiver.link.encode_link heatshrink cap 0 0 []
  have polled : (receiver.link.makePoll heatshrink cap).link =
      { receiver.link with txCtr64 := ctr, lastPersist := persist } := sent
  obtain ⟨t, flow⟩ := flow.report (receiver.link.makePoll_emits heatshrink [] cap)
  refine ⟨t, flow.receiver_congr (flow.receiver_valid.encode heatshrink cap 0 0 [])
    (flow.receives.of_receiveView ?_) ?_ rfl⟩
  all_goals
    rw [End.call, polled]
    rfl

end Flow

/-! ### Draining -/

theorem slotOf_ofNat_eq_iff (left right : Nat) :
    slotOf (UInt8.ofNat left) = slotOf (UInt8.ofNat right) ↔ left % 16 = right % 16 := by
  rw [Fin.ext_iff, slotOf_val, slotOf_val, UInt8.toNat_ofNat', UInt8.toNat_ofNat']
  omega

namespace Receives

variable {receiver : Link R} {framed : List Bytes} {read : Bytes} {s : State}

/-- Draining one frame delivers the next one in order. -/
theorem drainOne (receives : Receives receiver framed read s) (valid : receiver.Valid)
    (protocol : SelectiveRepeat.Invariant maxWin s) (ready : receiver.canDrain = true) :
    s.held s.delivered ∧ Receives receiver.drainOne framed read
      { s with
        delivered := s.delivered + 1
        held := fun n => s.held n ∧ n ≠ s.delivered } := by
  obtain ⟨ring, -, contents, drained⟩ := Link.drainOne_eq valid.rRing ready
  have buffered := Link.holds_of_canDrain ready
  have next := receives.next
  rw [next] at buffered contents
  obtain ⟨held, found⟩ := receives.of_holds protocol buffered (by omega) (by omega)
  refine ⟨held, ?_⟩
  rw [drained]
  refine ⟨?_, ?_, ?_, ?_⟩
  · rw [next]
    exact (ofNat_succ s.delivered).symm
  · intro slot received
    change (receiver.releaseSlot slot).received = true at received
    change ∃ n, (s.held n ∧ n ≠ s.delivered) ∧ (receiver.releaseSlot slot).seq = UInt8.ofNat n ∧
      framed[n]? = some (receiver.releaseSlot slot).buf
    by_cases released : slot = slotOf receiver.rxNext
    · rw [Link.releaseSlot, released, Function.update_self] at received
      cases received
    · rw [Link.releaseSlot, Function.update_of_ne released] at received ⊢
      obtain ⟨n, member, numbered, cargo⟩ := receives.slot slot received
      refine ⟨n, ⟨member, ?_⟩, numbered, cargo⟩
      rintro rfl
      have own := valid.receive.slot_eq slot received
      rw [numbered, ← next] at own
      exact released (slotOf_eq_iff.mpr own).symm
  · rintro n ⟨member, different⟩
    obtain ⟨above, below⟩ := protocol.held_window n member
    unfold maxWin at below
    have elsewhere : slotOf (UInt8.ofNat n) ≠ slotOf receiver.rxNext := by
      rw [next, ne_eq, slotOf_ofNat_eq_iff]
      omega
    have original := receives.held n member
    unfold Link.holds at original ⊢
    change ((receiver.releaseSlot (slotOf (UInt8.ofNat n))).received &&
      (receiver.releaseSlot (slotOf (UInt8.ofNat n))).seq == UInt8.ofNat n) = true
    rw [Link.releaseSlot, Function.update_of_ne elsewhere]
    exact original
  · change read ++ ring.contents = (framed.take (s.delivered + 1)).flatten
    rw [contents, ← List.append_assoc, receives.out, List.take_add_one, List.flatten_append, found]
    simp

/-- Draining delivers any number of frames. -/
theorem drainInOrder (receives : Receives receiver framed read s) (valid : receiver.Valid)
    (protocol : SelectiveRepeat.Invariant maxWin s) :
    ∃ delivered held,
      Relation.ReflTransGen (Step maxWin) s { s with delivered := delivered, held := held } ∧
        Receives receiver.drainInOrder framed read
          { s with delivered := delivered, held := held } := by
  have drained : ∃ delivered held, receiver.drainInOrder.Valid ∧
      Relation.ReflTransGen (Step maxWin) s { s with delivered := delivered, held := held } ∧
        Receives receiver.drainInOrder framed read
          { s with delivered := delivered, held := held } := by
    refine Link.drainInOrder_induction (motive := fun link => ∃ delivered held, link.Valid ∧
      Relation.ReflTransGen (Step maxWin) s { s with delivered := delivered, held := held } ∧
        Receives link framed read { s with delivered := delivered, held := held })
      (fun link ready inductionHypothesis => ?_) ⟨s.delivered, s.held, valid, .refl, receives⟩
    obtain ⟨delivered, held, valid, steps, receives⟩ := inductionHypothesis
    obtain ⟨next, receives⟩ := receives.drainOne valid (protocol.steps steps) ready
    exact ⟨delivered + 1, fun n => held n ∧ n ≠ delivered, valid.drainOne ready,
      steps.tail (.deliver next), receives⟩
  obtain ⟨delivered, held, -, drained⟩ := drained
  exact ⟨delivered, held, drained⟩

/-! ### Buffering -/

/-- A frame of the receive window is held, if it was not held before. -/
theorem storeFrame (receives : Receives receiver framed read s)
    (protocol : SelectiveRepeat.Invariant maxWin s) {index : Nat} {raw : Bytes}
    (above : s.delivered ≤ index) (below : index < s.delivered + maxWin)
    (found : framed[index]? = some raw) :
    Receives (receiver.storeFrame (UInt8.ofNat index) (some raw)) framed read
      { s with held := fun n => s.held n ∨ n = index } := by
  unfold maxWin at below
  rw [Link.storeFrame]
  split
  next buffered =>
    exact {
      next := receives.next
      slot := fun slot received => by
        obtain ⟨n, member, cargo⟩ := receives.slot slot received
        exact ⟨n, Or.inl member, cargo⟩
      held := by
        rintro n (member | rfl)
        · exact receives.held n member
        · exact buffered
      out := receives.out }
  next absent =>
    refine ⟨receives.next, ?_, ?_, receives.out⟩
    · intro slot received
      simp only at received ⊢
      by_cases own : slot = slotOf (UInt8.ofNat index)
      · rw [own, Function.update_self]
        exact ⟨index, Or.inr rfl, rfl, found⟩
      · rw [Function.update_of_ne own] at received ⊢
        obtain ⟨n, member, cargo⟩ := receives.slot slot received
        exact ⟨n, Or.inl member, cargo⟩
    · intro n member
      simp only [Link.holds]
      by_cases own : slotOf (UInt8.ofNat n) = slotOf (UInt8.ofNat index)
      · have same : n = index := by
          rcases member with member | same
          · obtain ⟨lower, upper⟩ := protocol.held_window n member
            unfold maxWin at upper
            rw [slotOf_ofNat_eq_iff] at own
            omega
          · exact same
        rw [own, Function.update_self, same]
        exact beq_self_eq_true _
      · rw [Function.update_of_ne own]
        have different : n ≠ index := fun same => own (by rw [same])
        exact receives.held n (member.resolve_right different)

/-- A data frame off the air is held or ignored, then draining delivers. One that is not
ahead of the receive window is had afterwards. -/
theorem receiveData (receives : Receives receiver framed read s) (valid : receiver.Valid)
    (protocol : SelectiveRepeat.Invariant maxWin s) {p : Data} {rest : List (Option Data)}
    (arrived : s.data = some p :: rest) {raw : Bytes} (found : framed[p.index]? = some raw)
    (short : raw.length ≤ decMax) :
    ∃ delivered held,
      Relation.ReflTransGen (Step maxWin) s
          { s with data := rest, delivered := delivered, held := held } ∧
        Receives (receiver.receiveData (UInt8.ofNat p.index) (some raw)) framed read
            { s with data := rest, delivered := delivered, held := held } ∧
          (p.index < s.delivered + maxWin →
            State.Has { s with data := rest, delivered := delivered, held := held } p.index) := by
  have inFlight : some p ∈ s.data := by
    rw [arrived]
    exact List.mem_cons_self
  have behind := protocol.delivered_le_index inFlight
  have ahead := protocol.data_near p inFlight
  unfold maxWin at behind ahead
  rw [Link.receiveData]
  split
  next near =>
    rw [receives.next] at near
    -- a number behind the window is a whole lap ahead of it
    have above : s.delivered ≤ p.index := by
      rcases Nat.lt_or_ge p.index s.delivered with stale | current
      · rw [toNat_sub_of_lt stale (by omega)] at near
        unfold maxWin at near
        omega
      · exact current
    rw [toNat_sub_of_le above (by omega)] at near
    have below : p.index < s.delivered + maxWin := by omega
    have hold := Step.hold arrived above below
    have stored := receives.storeFrame protocol above below found
    have storedValid : (receiver.storeFrame (UInt8.ofNat p.index) (some raw)).Valid := by
      refine valid.storeFrame ?_ ?_
      · rw [receives.next, toNat_sub_of_le above (by omega)]
        exact near
      · rintro buf ⟨⟩
        exact short
    have stored : Receives (receiver.storeFrame (UInt8.ofNat p.index) (some raw)) framed read
        { s with data := rest, held := fun n => s.held n ∨ n = p.index } := { stored with }
    obtain ⟨delivered, held, steps, drained⟩ :=
      stored.drainInOrder storedValid (protocol.step hold)
    exact ⟨delivered, held, .head hold steps, drained.of_receiveView rfl,
      fun _ => (Step.has_steps steps).2 p.index (Or.inr (Or.inr rfl))⟩
  next far =>
    have ignored : Receives receiver framed read { s with data := rest } := { receives with }
    refine ⟨s.delivered, s.held, .single (.ignore arrived), ignored.of_receiveView rfl,
      fun below => ?_⟩
    rcases Nat.lt_or_ge p.index s.delivered with delivered | above
    · exact Or.inl delivered
    · rw [receives.next, toNat_sub_of_le above (by omega)] at far
      omega

/-- A trusted frame acts on the receive window through its data only. -/
theorem accept (receives : Receives receiver framed read s) (valid : receiver.Valid)
    (protocol : SelectiveRepeat.Invariant maxWin s) {data : Option Data}
    {rest : List (Option Data)} (arrived : s.data = data :: rest) {h : Header}
    {decoded : Option Bytes}
    (cargo : hasFlag h.flags fData = true → ∃ p raw, data = some p ∧
      h.seq = UInt8.ofNat p.index ∧ framed[p.index]? = some raw ∧ decoded = some raw ∧
        raw.length ≤ decMax) :
    ∃ delivered held,
      Relation.ReflTransGen (Step maxWin) s
          { s with data := rest, delivered := delivered, held := held } ∧
        Receives (receiver.accept h decoded) framed read
            { s with data := rest, delivered := delivered, held := held } ∧
          (hasFlag h.flags fData = true → ∀ p, data = some p →
            p.index < s.delivered + maxWin →
            State.Has { s with data := rest, delivered := delivered, held := held } p.index) := by
  have trusted : Link.Valid { receiver with
      rxCtrl := h.flags &&& ctrlMask, rxAux := h.aux, gotValidRx := true } := { valid with }
  have acked : Receives (Link.ackProcess { receiver with
      rxCtrl := h.flags &&& ctrlMask, rxAux := h.aux, gotValidRx := true } h.ack h.sack) framed read
      s := by
    refine receives.of_receiveView ?_
    rw [Link.ackProcess_link]
    rfl
  rw [Link.accept]
  split
  next carriesData =>
    obtain ⟨p, raw, rfl, numbered, found, rfl, short⟩ := cargo carriesData
    rw [numbered]
    obtain ⟨delivered, held, steps, received, has⟩ :=
      acked.receiveData (trusted.ackProcess h.ack h.sack) protocol arrived found short
    refine ⟨delivered, held, steps, received, ?_⟩
    rintro - q ⟨⟩
    exact has
  next bare =>
    exact ⟨s.delivered, s.held, .single (.ignore arrived), { acked with },
      fun carriesData => absurd carriesData bare⟩

end Receives

namespace Flow

variable {sender : End S} {receiver : End R} {s : State}

/-- The receiver takes frames off the air, holds and delivers. -/
theorem receiver_step (flow : Flow heatshrink sender receiver s) {other : End R}
    {data : List (Option Data)} {air : List Bytes} {delivered : Nat} {held : Nat → Prop}
    (steps : Relation.ReflTransGen (Step maxWin) s
      { s with data := data, delivered := delivered, held := held })
    (carried : List.Forall₂ (CarriesData heatshrink sender.link.wireView sender.framed) data air)
    (valid : other.link.Valid)
    (receives : Receives other.link sender.framed other.read
      { s with data := data, delivered := delivered, held := held })
    (wire : other.link.wireView = receiver.link.wireView) (sameAir : other.air = receiver.air) :
    Flows heatshrink { sender with air := air } other := by
  have epoch : other.link.myEpoch = receiver.link.myEpoch := congrArg Prod.snd wire
  exact ⟨_, {
    protocol := flow.protocol.steps steps
    sender_valid := flow.sender_valid
    receiver_valid := valid
    same_seal := (congrArg Prod.fst wire).trans flow.same_seal
    short_tag := flow.short_tag
    sends := { flow.sends with }
    receives := receives
    data := carried
    acks := by
      rw [epoch, sameAir]
      exact flow.acks }⟩

/-- Reading takes delivered bytes and lets held frames through. -/
theorem read_receiver (flow : Flow heatshrink sender receiver s) (max : Nat) :
    Flows heatshrink sender (receiver.call heatshrink (.read max)) := by
  have valid := flow.receiver_valid.read max
  obtain ⟨_, _, _, _, _, touched⟩ := receiver.link.read_link max
  obtain ⟨ring, wellFormed, contents, left⟩ :=
    Link.readLoop_spec max receiver.link flow.receiver_valid.rRing
  have taken : Receives { receiver.link with rRing := ring } sender.framed
      (receiver.read ++ (receiver.link.readLoop max).1) s := {
    next := flow.receives.next
    slot := flow.receives.slot
    held := flow.receives.held
    out := by
      rw [List.append_assoc, ← contents]
      exact flow.receives.out }
  obtain ⟨delivered, held, steps, drained⟩ :=
    taken.drainInOrder { flow.receiver_valid with rRing := wellFormed } flow.protocol
  rw [← left] at drained
  refine flow.receiver_step steps flow.data valid drained ?_ rfl
  rw [End.call, touched]
  rfl

/-- The receiver hears a frame of the sender: its data is held, ignored or lost, and
held frames are delivered. -/
theorem hear_receiver (flow : Flow heatshrink sender receiver s) {bytes : Bytes}
    {rest : List Bytes} (onAir : sender.air = bytes :: rest)
    (known : receiver.link.peerEpoch = 0 ∨ receiver.link.peerEpoch = sender.link.myEpoch) :
    Flows heatshrink { sender with air := rest } (receiver.hear heatshrink bytes) := by
  have valid := flow.receiver_valid.onRx heatshrink bytes
  have data := flow.data
  rw [onAir] at data
  obtain ⟨oldest, later, carries, others, arrived⟩ := List.forall₂_cons_right_iff.mp data
  obtain ⟨h, body, parsed, epoch, cargo⟩ := carries
  have known : receiver.link.peerEpoch = 0 ∨ receiver.link.peerEpoch = h.epoch := by
    rw [epoch]
    exact known
  obtain ⟨recorded, seeded, max, window, heard⟩ :=
    receiver.link.onRx_known heatshrink parsed known
  rcases heard with refused | ⟨decoded, authentic, accepted⟩
  · have ignored : Relation.ReflTransGen (Step maxWin) s
        { s with data := later, delivered := s.delivered, held := s.held } :=
      .single (.ignore arrived)
    refine flow.receiver_step ignored others valid ?_ ?_ rfl
    · have same : Receives receiver.link sender.framed receiver.read { s with data := later } :=
        { flow.receives with }
      refine same.of_receiveView ?_
      rw [End.hear, refused]
      rfl
    · rw [End.hear, refused]
      rfl
  · have opened : Link.Valid { receiver.link with
        peerEpoch := recorded, rxCtrInit := seeded, rxCtrMax := max, rxWindow := window } :=
      { flow.receiver_valid with }
    have same : Receives { receiver.link with
        peerEpoch := recorded, rxCtrInit := seeded, rxCtrMax := max, rxWindow := window }
        sender.framed receiver.read s := flow.receives.of_receiveView rfl
    have cargo : hasFlag h.flags fData = true → ∃ p raw, oldest = some p ∧
        h.seq = UInt8.ofNat p.index ∧ sender.framed[p.index]? = some raw ∧ decoded = some raw ∧
          raw.length ≤ decMax := by
      intro carriesData
      cases oldest with
      | none => exact absurd carriesData (by rw [cargo]; decide)
      | some p =>
          obtain ⟨numbered, raw, found, opens⟩ := cargo
          have decodes : decoded = some raw := by
            rcases opens R { receiver.link with peerEpoch := recorded } flow.same_seal with
              ⟨exit, refused⟩ | decodes
            · rw [refused] at authentic
              cases authentic
            · rw [decodes] at authentic
              cases authentic
              rfl
          subst decodes
          exact ⟨p, raw, rfl, numbered, found, rfl, Link.length_authenticate_le authentic⟩
    obtain ⟨delivered, held, steps, receives, -⟩ := same.accept opened flow.protocol arrived cargo
    obtain ⟨_, _, _, _, _, _, _, _, _, _, touched⟩ := Link.accept_link { receiver.link with
      peerEpoch := recorded, rxCtrInit := seeded, rxCtrMax := max, rxWindow := window } h decoded
    refine flow.receiver_step steps others valid ?_ ?_ rfl
    · rw [End.hear, accepted]
      exact receives
    · rw [End.hear, accepted, touched]
      rfl

/-! ### Every call of the receiving end -/

theorem call_receiver (flow : Flow heatshrink sender receiver s) (c : Call) :
    Flows heatshrink sender (receiver.call heatshrink c) := by
  have quiet : ∀ link : Link R, link.Valid → link.receiveView = receiver.link.receiveView →
      link.wireView = receiver.link.wireView →
      ∀ written : Bytes, Flows heatshrink sender
        { receiver with link := link, written := written } :=
    fun _ valid view wire written =>
      ⟨s, flow.receiver_congr valid (flow.receives.of_receiveView view) wire rfl⟩
  have valid := flow.receiver_valid
  cases c with
  | write d =>
      obtain ⟨ring, written⟩ := receiver.link.write_link d
      exact quiet _ (valid.write d) (by rw [written]; rfl) (by rw [written]; rfl) _
  | read max => exact flow.read_receiver max
  | setTiming window retransmitMs => exact quiet _ (valid.setTiming window retransmitMs) rfl rfl _
  | takeGotData => exact quiet receiver.link.takeGotData.2 { valid with } rfl rfl _
  | takePeerReset => exact quiet receiver.link.takePeerReset.2 { valid with } rfl rfl _
  | takeValidRx => exact quiet receiver.link.takeValidRx.2 { valid with } rfl rfl _
  | setCtrlTx bits => exact quiet (receiver.link.setCtrlTx bits) { valid with } rfl rfl _
  | setAuxTx aux => exact quiet (receiver.link.setAuxTx aux) { valid with } rfl rfl _
  | beginTurn => exact quiet _ valid.beginTurn rfl rfl _
  | nextTx cap now => exact flow.nextTx_receiver cap now
  | makePoll cap => exact flow.makePoll_receiver cap

end Flow

end LoraSerial.LinkLayer
