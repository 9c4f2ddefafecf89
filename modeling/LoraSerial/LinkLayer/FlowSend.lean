import LoraSerial.LinkLayer.Flow

/-!
Owns what the calls of the sending end do to one direction: framing builds, a
transmission carries one window frame or none, an acknowledgement marks what it
reports and slides the window past it. Frames acknowledged by a number modulo 256
are the reported ones because the protocol keeps both ends within a window.
-/

namespace LoraSerial.LinkLayer

open Library Library.SequenceNumber
open Library.SelectiveRepeat (State Data Ack Step)

/-! ### Transmissions -/

/-- What `NextTx` and `MakePoll` hand to the radio: nothing, a frame without data,
or a frame of the window. -/
inductive Emits {RING : Nat} (heatshrink : Heatshrink) (link : Link RING) (win : List Frame) :
    Option Bytes → Prop
  | silent : Emits heatshrink link win none
  | bare (base : Link RING) (cap : Nat) (receive : base.receiveView = link.receiveView)
      (wire : base.wireView = link.wireView) :
      Emits heatshrink link win (base.encode heatshrink cap 0 0 []).frame
  | data (base : Link RING) (cap : Nat) (flags : UInt8) (index : Nat) (f : Frame)
      (receive : base.receiveView = link.receiveView) (wire : base.wireView = link.wireView)
      (kind : flags = fData ∨ flags = fData ||| fMore) (found : win[index]? = some f) :
      Emits heatshrink link win (base.encode heatshrink cap flags f.seq f.raw).frame

theorem Emits.congr {RING : Nat} {heatshrink : Heatshrink} {link other : Link RING}
    {win : List Frame} {frame : Option Bytes} (emits : Emits heatshrink link win frame)
    (receive : link.receiveView = other.receiveView) (wire : link.wireView = other.wireView) :
    Emits heatshrink other win frame := by
  cases emits with
  | silent => exact .silent
  | bare base cap sameReceive sameWire =>
      exact .bare base cap (sameReceive.trans receive) (sameWire.trans wire)
  | data base cap flags index f sameReceive sameWire kind found =>
      exact .data base cap flags index f (sameReceive.trans receive) (sameWire.trans wire) kind found

namespace Link

variable {RING : Nat}

theorem nextTx_emits (heatshrink : Heatshrink) (link : Link RING) (cap : Nat) (now : UInt32) :
    Emits heatshrink link link.fillWindow.win (link.nextTx heatshrink cap now).frame := by
  obtain ⟨ring, win, next, filled⟩ := link.fillWindow_link
  simp only [nextTx]
  split
  next f pick found =>
    refine .data (link.fillWindow.markSent now f pick) cap _ pick f ?_ ?_ ?_ (picked_mem found)
    · rw [filled]
      rfl
    · rw [filled]
      rfl
    · split
      · exact Or.inr rfl
      · exact Or.inl rfl
  next =>
    split
    · refine .bare { link.fillWindow with ackSentTurn := true, ackPending := false } cap ?_ ?_ <;>
        rw [filled] <;> rfl
    · exact .silent

theorem makePoll_emits (heatshrink : Heatshrink) (link : Link RING) (win : List Frame)
    (cap : Nat) : Emits heatshrink link win (link.makePoll heatshrink cap).frame :=
  .bare link cap rfl rfl

/-- Beyond filling, a transmission stamps window frames, counts and clears the owed
ack. -/
theorem nextTx_filled (heatshrink : Heatshrink) (link : Link RING) (cap : Nat) (now : UInt32) :
    ∃ win owed lone sent resent ctr persist,
      (link.nextTx heatshrink cap now).link = { link.fillWindow with
          win := win, ackPending := owed, ackSentTurn := lone
          statTx := sent, statRetx := resent, txCtr64 := ctr, lastPersist := persist } ∧
        win.map Frame.cargo = link.fillWindow.win.map Frame.cargo ∧
        win.map Frame.acked = link.fillWindow.win.map Frame.acked := by
  simp only [nextTx]
  split
  next f pick _ =>
    obtain ⟨ctr, persist, encoded⟩ := (link.fillWindow.markSent now f pick).encode_link heatshrink
      cap (if (link.fillWindow.markSent now f pick).moreToSend pick then fData ||| fMore else fData)
      f.seq f.raw
    simp only [sendFrame, encoded]
    exact ⟨_, _, _, _, _, _, _, rfl, map_cargo_modify _ _ _, map_acked_modify _ _ _⟩
  next =>
    split
    · obtain ⟨ctr, persist, encoded⟩ := encode_link heatshrink
        { link.fillWindow with ackSentTurn := true, ackPending := false } cap 0 0 []
      rw [encoded]
      exact ⟨_, _, _, _, _, _, _, rfl, rfl, rfl⟩
    · exact ⟨_, _, _, _, _, _, _, rfl, rfl, rfl⟩

end Link

variable {S R : Nat} {heatshrink : Heatshrink}

/-- An encoded frame opens to the bytes it was made from. -/
theorem opens_encode (inverts : heatshrink.Inverts) {base : Link S}
    (shortTag : base.cfg.tagLen.toNat ≤ tagMax) {cap : Nat} {flags seq : UInt8}
    {raw bytes body : Bytes} {h : Header} (short : raw.length ≤ maxPay)
    (kind : flags = fData ∨ flags = fData ||| fMore)
    (encoded : (base.encode heatshrink cap flags seq raw).frame = some bytes)
    (parsed : parseHeader bytes = some (h, body)) :
    Opens heatshrink base.sealSettings bytes h body raw := by
  have noComp : hasFlag flags fComp = false := by rcases kind with rfl | rfl <;> decide
  have noEnc : hasFlag flags fEnc = false := by rcases kind with rfl | rfl <;> decide
  exact fun _ receiver same =>
    Link.authenticate_encode inverts same shortTag short noComp noEnc encoded parsed

/-- Every transmission stands for a send of the protocol. -/
theorem Emits.carriesData (inverts : heatshrink.Inverts) {link : Link S} {win : List Frame}
    {framed : List Bytes} {base top : Nat} {bytes : Bytes}
    (shortTag : link.cfg.tagLen.toNat ≤ tagMax) (length : base + win.length = top)
    (window : ∀ index f, win[index]? = some f → f.seq = UInt8.ofNat (base + index) ∧
      framed[base + index]? = some f.raw ∧ f.raw.length ≤ maxPay)
    (emits : Emits heatshrink link win (some bytes)) :
    ∃ data, (data = none ∨ ∃ index, base ≤ index ∧ index < top ∧ data = some ⟨index, top⟩) ∧
      CarriesData heatshrink link.wireView framed data bytes := by
  generalize emitted : some bytes = frame at emits
  cases emits with
  | silent => cases emitted
  | bare source cap receive wire =>
      obtain ⟨body, parsed⟩ := Link.parseHeader_encode emitted.symm
      refine ⟨none, Or.inl rfl, _, body, parsed, congrArg Prod.snd wire, ?_⟩
      rw [Link.hasFlag_wireHeader_data]
      rfl
  | data source cap flags index f receive wire kind found =>
      obtain ⟨body, parsed⟩ := Link.parseHeader_encode emitted.symm
      obtain ⟨numbered, cargo, short⟩ := window index f found
      have inside := (List.getElem?_eq_some_iff.mp found).1
      have settings : source.sealSettings = link.sealSettings := congrArg Prod.fst wire
      have shortTag : source.cfg.tagLen.toNat ≤ tagMax := by
        rw [show source.cfg.tagLen = link.cfg.tagLen from congrArg Prod.snd settings]
        exact shortTag
      refine ⟨some ⟨base + index, top⟩, Or.inr ⟨base + index, by omega, by omega, rfl⟩, _, body,
        parsed, congrArg Prod.snd wire, numbered, f.raw, cargo, ?_⟩
      have opens := opens_encode inverts shortTag short kind emitted.symm parsed
      rw [settings] at opens
      exact opens

/-! ### The sending end -/

namespace Flow

variable {sender : End S} {receiver : End R} {s : State}

/-- Filling the window builds the framed payloads. -/
theorem fillWindow (flow : Flow heatshrink sender receiver s) :
    ∃ built, Flow heatshrink
      { sender with
        link := sender.link.fillWindow
        framed := sender.framed ++ End.newlyFramed sender.link } receiver
      { s with built := built } := by
  obtain ⟨added, fills⟩ := Link.fillWindow_fills flow.sender_valid.sRing
  obtain ⟨ring, next, filled⟩ := fills.result
  have length := flow.sends.length flow.protocol
  have bound := flow.sender_valid.window_le
  have recent := flow.protocol.window
  have ordered := flow.protocol.base_le
  have delivered := flow.protocol.delivered_le_built
  have window : sender.link.fillWindow.win = sender.link.win ++ added := by rw [filled]
  have framed : End.newlyFramed sender.link = added.map Frame.raw := by
    rw [End.newlyFramed, window, List.drop_left]
  have room : s.built + added.length ≤ s.base + maxWin := by
    rcases fills.room with none | within
    · rw [none]
      exact recent
    · omega
  have wire : sender.link.fillWindow.wireView = sender.link.wireView := by
    rw [filled]
    rfl
  have built := flow.sends.built
  refine ⟨s.built + added.length,
    { flow with
      protocol := flow.protocol.steps (Step.builds s added.length room)
      sender_valid := flow.sender_valid.fillWindow
      same_seal := flow.same_seal.trans (congrArg Prod.fst wire).symm
      short_tag := ?_
      sends := ?_
      receives := ?_
      data := ?_ }⟩
  · rw [filled]
    exact flow.short_tag
  · rw [framed]
    exact {
      built := by rw [List.length_append, List.length_map, ← built]
      base := by
        rw [filled]
        exact flow.sends.base
      window := by
        have within : s.base ≤ sender.framed.length := by omega
        rw [window, List.map_append, flow.sends.window, List.drop_append_of_le_length within]
      acked := by
        intro index f found acked
        rw [window] at found
        by_cases old : index < sender.link.win.length
        · rw [List.getElem?_append_left old] at found
          exact flow.sends.acked index f found acked
        · rw [List.getElem?_append_right (by omega)] at found
          rw [fills.fresh f (List.mem_of_getElem? found)] at acked
          cases acked }
  · exact { flow.receives.extend (by omega) _ with }
  · rw [wire]
    exact flow.data.imp fun _ _ carries => carries.extend _

/-- What is transmitted joins the frames on the air. -/
theorem transmit (flow : Flow heatshrink sender receiver s) (inverts : heatshrink.Inverts)
    {frame : Option Bytes} (emits : Emits heatshrink sender.link sender.link.win frame) :
    Flows heatshrink { sender with air := sender.air ++ frame.toList } receiver := by
  cases frame with
  | none => exact ⟨s, { flow with data := by simpa using flow.data }⟩
  | some bytes =>
      obtain ⟨data, sent, carries⟩ := emits.carriesData inverts flow.short_tag
        (flow.sends.length flow.protocol) fun index f found =>
          ⟨flow.sends.seq flow.sender_valid found, flow.sends.raw found,
            (flow.sender_valid.send.payload f (List.mem_of_getElem? found)).2⟩
      have step : Step maxWin s { s with data := s.data ++ [data] } := by
        rcases sent with rfl | ⟨index, above, below, rfl⟩
        · exact .sendBare
        · exact .send index above below
      exact ⟨_, { flow with
        protocol := flow.protocol.step step
        sends := { flow.sends with }
        receives := { flow.receives with }
        data := List.rel_append flow.data (.cons carries .nil) }⟩

theorem nextTx_sender (flow : Flow heatshrink sender receiver s) (inverts : heatshrink.Inverts)
    (cap : Nat) (now : UInt32) :
    Flows heatshrink (sender.call heatshrink (.nextTx cap now)) receiver := by
  have valid := flow.sender_valid.nextTx heatshrink cap now
  obtain ⟨win, _, _, _, _, _, _, sent, sameCargo, sameAcked⟩ :=
    sender.link.nextTx_filled heatshrink cap now
  obtain ⟨ring, filledWin, next, filled⟩ := sender.link.fillWindow_link
  obtain ⟨built, filledFlow⟩ := flow.fillWindow
  have emits : Emits heatshrink sender.link.fillWindow sender.link.fillWindow.win
      (sender.link.nextTx heatshrink cap now).frame :=
    (sender.link.nextTx_emits heatshrink cap now).congr (by rw [filled]; rfl) (by rw [filled]; rfl)
  obtain ⟨t, flow⟩ := filledFlow.transmit inverts emits
  refine ⟨t, flow.sender_congr valid (flow.sends.congr ?_ ?_ ?_) ?_ rfl rfl⟩ <;>
    rw [End.call, sent]
  · exact sameCargo
  · exact sameAcked
  · rfl

theorem makePoll_sender (flow : Flow heatshrink sender receiver s)
    (inverts : heatshrink.Inverts) (cap : Nat) :
    Flows heatshrink (sender.call heatshrink (.makePoll cap)) receiver := by
  obtain ⟨ctr, persist, sent⟩ := sender.link.encode_link heatshrink cap 0 0 []
  have polled : (sender.link.makePoll heatshrink cap).link =
      { sender.link with txCtr64 := ctr, lastPersist := persist } := sent
  obtain ⟨t, flow⟩ := flow.transmit inverts (sender.link.makePoll_emits heatshrink _ cap)
  refine ⟨t, flow.sender_congr (flow.sender_valid.encode heatshrink cap 0 0 [])
    (flow.sends.of_sendView ?_) ?_ rfl rfl⟩
  all_goals
    rw [End.call, polled]
    rfl

end Flow

/-! ### Acknowledgements -/

section

variable {sender : Link S} {framed : List Bytes} {s : State} {a : Ack} {rest : List Ack}

/-- What the header reports modulo 256 is what the acknowledgement reports. -/
theorem Sends.of_reported (sends : Sends sender framed s) (valid : sender.Valid)
    (protocol : SelectiveRepeat.Invariant maxWin s) (inFlight : a ∈ s.acks) {sack : UInt16}
    (selected : ∀ k < maxWin - 1, sackBit sack k = true → a.sel (a.cum + 1 + k)) {index : Nat}
    {f : Frame} (found : sender.win[index]? = some f)
    (reported : sender.Reported (UInt8.ofNat a.cum) sack index f) :
    s.base + index < a.cum ∨ a.sel (s.base + index) := by
  have length := sends.length protocol
  have inside := (List.getElem?_eq_some_iff.mp found).1
  have behind := protocol.base_le_cum inFlight
  have ahead := protocol.cum_le_built inFlight
  have recent := protocol.window
  unfold maxWin at behind recent
  rcases reported with ⟨below, within⟩ | ⟨k, short, bit, numbered⟩
  · rw [sends.base] at below within
    -- an ack behind the base would be a whole lap ahead of the window
    rcases Nat.lt_or_ge a.cum s.base with stale | current
    · rw [toNat_sub_of_lt stale (by omega)] at within
      omega
    · rw [toNat_sub_of_le current (by omega)] at below
      exact Or.inl (by omega)
  · have same : UInt8.ofNat (s.base + index) = UInt8.ofNat (a.cum + 1 + k) := by
      rw [← sends.seq valid found, numbered, ofNat_add, ofNat_add]
      rfl
    unfold maxWin at short
    have same := ofNat_inj_of_near same (by omega) (by omega)
    rw [same]
    exact Or.inr (selected k short bit)

/-- An acknowledgement marks what it reports and slides the window. -/
theorem Sends.ackProcess (sends : Sends sender framed s) (valid : sender.Valid)
    (protocol : SelectiveRepeat.Invariant maxWin s) (arrived : s.acks = a :: rest) {sack : UInt16}
    (selected : ∀ k < maxWin - 1, sackBit sack k = true → a.sel (a.cum + 1 + k)) :
    ∃ front, Relation.ReflTransGen (Step maxWin) s (s.acknowledged a rest front) ∧
      Sends (sender.ackProcess (UInt8.ofNat a.cum) sack) framed (s.acknowledged a rest front) := by
  have inFlight : a ∈ s.acks := by
    rw [arrived]
    exact List.mem_cons_self
  have length := sends.length protocol
  have removed := sender.ackedFront_le (UInt8.ofNat a.cum) sack
  have known : ∀ {index : Nat} {f : Frame}, sender.win[index]? = some f →
      (f.acked = true ∨ sender.Reported (UInt8.ofNat a.cum) sack index f) →
      s.acked (s.base + index) ∨ (s.base + index < a.cum ∨ a.sel (s.base + index)) := by
    intro index f found marked
    exact marked.imp (sends.acked index f found)
      (sends.of_reported valid protocol inFlight selected found)
  refine ⟨sender.ackedFront (UInt8.ofNat a.cum) sack, Step.acknowledges arrived ?_ (by omega),
    ⟨sends.built, ?_, ?_, ?_⟩⟩
  · intro n less
    obtain ⟨f, found, marked⟩ := Link.acked_of_lt_ackedFront less
    exact known found marked
  · rw [Link.ackProcess_link]
    simp only [sends.base]
    exact (ofNat_add _ _).symm
  · have cargo := sender.map_cargo_ackProcess (UInt8.ofNat a.cum) sack
    have raws := congrArg (List.map Prod.snd) cargo
    simp only [List.map_map, List.map_drop] at raws
    change (sender.ackProcess (UInt8.ofNat a.cum) sack).win.map (Prod.snd ∘ Frame.cargo) = _
    rw [raws]
    change (sender.win.map Frame.raw).drop _ = _
    rw [sends.window, List.drop_drop]
    rfl
  · intro index f found acked
    obtain ⟨g, original, marked⟩ := Link.acked_of_ackProcess found acked
    have marked := known original marked
    rw [← Nat.add_assoc] at marked
    exact marked

/-- A trusted frame acts on the send window through its acknowledgement only. -/
theorem Sends.accept (sends : Sends sender framed s) (valid : sender.Valid)
    (protocol : SelectiveRepeat.Invariant maxWin s) (arrived : s.acks = a :: rest) {h : Header}
    (numbered : h.ack = UInt8.ofNat a.cum)
    (selected : ∀ k < maxWin - 1, sackBit h.sack k = true → a.sel (a.cum + 1 + k))
    (decoded : Option Bytes) :
    ∃ front, Relation.ReflTransGen (Step maxWin) s (s.acknowledged a rest front) ∧
      Sends (sender.accept h decoded) framed (s.acknowledged a rest front) := by
  have trusted : Link.Valid { sender with
      rxCtrl := h.flags &&& ctrlMask, rxAux := h.aux, gotValidRx := true } := { valid with }
  have same : Sends { sender with
      rxCtrl := h.flags &&& ctrlMask, rxAux := h.aux, gotValidRx := true } framed s :=
    sends.of_sendView rfl
  obtain ⟨front, steps, acked⟩ := same.ackProcess trusted protocol arrived selected
  refine ⟨front, steps, ?_⟩
  rw [Link.accept, numbered]
  split
  · obtain ⟨_, _, _, _, _, _, received⟩ := Link.receiveData_link
      (Link.ackProcess { sender with
        rxCtrl := h.flags &&& ctrlMask, rxAux := h.aux, gotValidRx := true }
        (UInt8.ofNat a.cum) h.sack) h.seq decoded
    rw [received]
    exact acked.of_sendView rfl
  · exact acked

end

/-- The sender hears a frame of the receiver: the acknowledgement on it is applied,
or lost. -/
theorem Flow.hear_sender {sender : End S} {receiver : End R} {s : State}
    (flow : Flow heatshrink sender receiver s) {bytes : Bytes} {rest : List Bytes}
    (onAir : receiver.air = bytes :: rest)
    (known : sender.link.peerEpoch = 0 ∨ sender.link.peerEpoch = receiver.link.myEpoch) :
    Flows heatshrink (sender.hear heatshrink bytes) { receiver with air := rest } := by
  have valid := flow.sender_valid.onRx heatshrink bytes
  have acks := flow.acks
  rw [onAir] at acks
  obtain ⟨a, later, carries, others, arrived⟩ := List.forall₂_cons_right_iff.mp acks
  obtain ⟨h, body, parsed, epoch, numbered, selected⟩ := carries
  rw [← epoch] at known
  obtain ⟨recorded, seeded, max, window, heard⟩ :=
    sender.link.onRx_known heatshrink parsed known
  rcases heard with refused | ⟨decoded, -, accepted⟩
  · have lost := flow.protocol.step (.loseAck 0)
    rw [arrived] at lost
    have flow : Flow heatshrink sender { receiver with air := rest } { s with acks := later } :=
      { flow with
        protocol := lost
        sends := { flow.sends with }
        receives := { flow.receives with }
        acks := others }
    refine ⟨_, flow.sender_congr valid (flow.sends.of_sendView ?_) ?_ rfl rfl⟩ <;>
      rw [End.hear, refused] <;> rfl
  · have opened : Link.Valid { sender.link with
        peerEpoch := recorded, rxCtrInit := seeded, rxCtrMax := max, rxWindow := window } :=
      { flow.sender_valid with }
    have same : Sends { sender.link with
        peerEpoch := recorded, rxCtrInit := seeded, rxCtrMax := max, rxWindow := window }
        sender.framed s := flow.sends.of_sendView rfl
    obtain ⟨front, steps, sends⟩ := same.accept opened flow.protocol arrived numbered selected decoded
    obtain ⟨_, _, _, _, _, _, _, _, _, _, touched⟩ := Link.accept_link { sender.link with
      peerEpoch := recorded, rxCtrInit := seeded, rxCtrMax := max, rxWindow := window } h decoded
    have wire : (sender.link.onRx heatshrink bytes).link.wireView = sender.link.wireView := by
      rw [accepted, touched]
      rfl
    have settings : (sender.link.onRx heatshrink bytes).link.sealSettings =
        sender.link.sealSettings := congrArg Prod.fst wire
    refine ⟨s.acknowledged a later front, {
      protocol := flow.protocol.steps steps
      sender_valid := valid
      receiver_valid := flow.receiver_valid
      same_seal := flow.same_seal.trans settings.symm
      short_tag := ?_
      sends := ?_
      receives := { flow.receives with }
      data := ?_
      acks := others }⟩
    · have tag : (sender.link.onRx heatshrink bytes).link.cfg.tagLen = sender.link.cfg.tagLen :=
        congrArg Prod.snd settings
      exact tag ▸ flow.short_tag
    · rw [End.hear, accepted]
      exact sends
    · change List.Forall₂ (CarriesData heatshrink
        (sender.link.onRx heatshrink bytes).link.wireView sender.framed) s.data sender.air
      rw [wire]
      exact flow.data

/-! ### Every call of the sending end -/

theorem Flow.call_sender {sender : End S} {receiver : End R} {s : State}
    (flow : Flow heatshrink sender receiver s) (inverts : heatshrink.Inverts) (c : Call) :
    Flows heatshrink (sender.call heatshrink c) receiver := by
  have quiet : ∀ link : Link S, link.Valid → link.sendView = sender.link.sendView →
      link.wireView = sender.link.wireView →
      ∀ (written read : Bytes), Flows heatshrink
        { sender with link := link, written := written, read := read } receiver :=
    fun _ valid view wire written read =>
      ⟨s, flow.sender_congr valid (flow.sends.of_sendView view) wire rfl rfl⟩
  have valid := flow.sender_valid
  cases c with
  | write d =>
      obtain ⟨ring, written⟩ := sender.link.write_link d
      exact quiet _ (valid.write d) (by rw [written]; rfl) (by rw [written]; rfl) _ _
  | read max =>
      obtain ⟨_, _, _, _, _, taken⟩ := sender.link.read_link max
      exact quiet _ (valid.read max) (by rw [taken]; rfl) (by rw [taken]; rfl) _ _
  | setTiming window retransmitMs => exact quiet _ (valid.setTiming window retransmitMs) rfl rfl _ _
  | takeGotData => exact quiet sender.link.takeGotData.2 { valid with } rfl rfl _ _
  | takePeerReset => exact quiet sender.link.takePeerReset.2 { valid with } rfl rfl _ _
  | takeValidRx => exact quiet sender.link.takeValidRx.2 { valid with } rfl rfl _ _
  | setCtrlTx bits => exact quiet (sender.link.setCtrlTx bits) { valid with } rfl rfl _ _
  | setAuxTx aux => exact quiet (sender.link.setAuxTx aux) { valid with } rfl rfl _ _
  | beginTurn =>
      have sends : Sends sender.link.beginTurn sender.framed s := by
        refine flow.sends.congr ?_ ?_ rfl <;> simp [Link.beginTurn, Frame.cargo]
      exact ⟨s, flow.sender_congr valid.beginTurn sends rfl rfl rfl⟩
  | nextTx cap now => exact flow.nextTx_sender inverts cap now
  | makePoll cap => exact flow.makePoll_sender inverts cap

end LoraSerial.LinkLayer
