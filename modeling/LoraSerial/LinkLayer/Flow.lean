import LoraSerial.Library.SelectiveRepeat
import LoraSerial.LinkLayer.Invariant
import LoraSerial.LinkLayer.Codec
import Mathlib.Data.List.Forall2

/-!
Owns the two ends of a link with the frames each has on the air, and the relation
`Flow` between one direction of the code and a state of the abstract
selective-repeat protocol: the send window is the part of the built frames from
`base` on, the receive slots are the held frames, every frame on the air carries the
data and the acknowledgement of its abstract counterpart. Does not own what a call
does to that relation.
-/

namespace LoraSerial.LinkLayer

open Library Library.SequenceNumber
open Library.SelectiveRepeat (State Data Ack)

/-! ### Ends -/

/-- A call of the application or of the turn loop, after `Init`. -/
inductive Call where
  | write (d : Bytes)
  | read (max : Nat)
  | setTiming (window : UInt8) (retransmitMs : UInt32)
  | takeGotData
  | takePeerReset
  | takeValidRx
  | setCtrlTx (bits : UInt8)
  | setAuxTx (aux : UInt8)
  | beginTurn
  | nextTx (cap : Nat) (now : UInt32)
  | makePoll (cap : Nat)

def Call.op : Call → Op
  | .write d => .write d
  | .read max => .read max
  | .setTiming window retransmitMs => .setTiming window retransmitMs
  | .takeGotData => .takeGotData
  | .takePeerReset => .takePeerReset
  | .takeValidRx => .takeValidRx
  | .setCtrlTx bits => .setCtrlTx bits
  | .setAuxTx aux => .setAuxTx aux
  | .beginTurn => .beginTurn
  | .nextTx cap now => .nextTx cap now
  | .makePoll cap => .makePoll cap

/-- One end: its link, its frames on the air, oldest first, the bytes `Write`
accepted, the payloads cut off the send ring and the bytes `Read` returned. -/
structure End (RING : Nat) where
  link : Link RING
  air : List Bytes
  written : Bytes
  framed : List Bytes
  read : Bytes

namespace End

variable {RING : Nat}

/-- An end that has sent and received nothing. -/
def fresh (link : Link RING) : End RING where
  link := link
  air := []
  written := []
  framed := []
  read := []

/-- `NextTx` fills the window before it picks a frame. -/
def newlyFramed (link : Link RING) : List Bytes :=
  (link.fillWindow.win.drop link.win.length).map Frame.raw

def call (heatshrink : Heatshrink) (e : End RING) : Call → End RING
  | .write d =>
      let written := e.link.write d
      { e with link := written.2, written := e.written ++ d.take written.1 }
  | .read max =>
      let taken := e.link.read max
      { e with link := taken.2, read := e.read ++ taken.1 }
  | .setTiming window retransmitMs => { e with link := e.link.setTiming window retransmitMs }
  | .takeGotData => { e with link := e.link.takeGotData.2 }
  | .takePeerReset => { e with link := e.link.takePeerReset.2 }
  | .takeValidRx => { e with link := e.link.takeValidRx.2 }
  | .setCtrlTx bits => { e with link := e.link.setCtrlTx bits }
  | .setAuxTx aux => { e with link := e.link.setAuxTx aux }
  | .beginTurn => { e with link := e.link.beginTurn }
  | .nextTx cap now =>
      let sent := e.link.nextTx heatshrink cap now
      { e with
        link := sent.link
        air := e.air ++ sent.frame.toList
        framed := e.framed ++ newlyFramed e.link }
  | .makePoll cap =>
      let sent := e.link.makePoll heatshrink cap
      { e with link := sent.link, air := e.air ++ sent.frame.toList }

theorem call_link (heatshrink : Heatshrink) (e : End RING) (c : Call) :
    (e.call heatshrink c).link = e.link.apply heatshrink c.op := by
  cases c <;> rfl

theorem valid_call {e : End RING} (valid : e.link.Valid) (heatshrink : Heatshrink) (c : Call) :
    (e.call heatshrink c).link.Valid := by
  rw [call_link]
  exact valid.apply heatshrink c.op

/-- A frame arrives. -/
def hear (heatshrink : Heatshrink) (e : End RING) (bytes : Bytes) : End RING :=
  { e with link := (e.link.onRx heatshrink bytes).link }

end End

/-! ### What a direction depends on -/

namespace Link

variable {RING : Nat}

/-- The send window and its base. -/
def sendView (link : Link RING) : List Frame × UInt8 :=
  (link.win, link.baseSeq)

/-- The receive slots, the next number and the receive ring. -/
def receiveView (link : Link RING) : (Fin 16 → RxSlot) × UInt8 × RingBuffer UInt8 RING :=
  (link.rx, link.rxNext, link.rRing)

/-- What a frame is sealed and stamped with. -/
def wireView (link : Link RING) : (Option Key × UInt8) × UInt8 :=
  (link.sealSettings, link.myEpoch)

end Link

/-! ### One direction -/

variable {S R : Nat}

/-- The sender has built `framed` and keeps the frames from `base` on. -/
structure Sends (sender : Link S) (framed : List Bytes) (s : State) : Prop where
  built : s.built = framed.length
  base : sender.baseSeq = UInt8.ofNat s.base
  window : sender.win.map Frame.raw = framed.drop s.base
  acked : ∀ index f, sender.win[index]? = some f → f.acked = true → s.acked (s.base + index)

/-- The receiver holds the held frames and has delivered the others in order. -/
structure Receives (receiver : Link R) (framed : List Bytes) (read : Bytes) (s : State) :
    Prop where
  next : receiver.rxNext = UInt8.ofNat s.delivered
  slot : ∀ slot, (receiver.rx slot).received = true → ∃ n, s.held n ∧
    (receiver.rx slot).seq = UInt8.ofNat n ∧ framed[n]? = some (receiver.rx slot).buf
  held : ∀ n, s.held n → receiver.holds (UInt8.ofNat n) = true
  out : read ++ receiver.rRing.contents = (framed.take s.delivered).flatten

/-- A receiver with this key and tag length refuses the frame or decodes it to
`raw`. -/
def Opens (heatshrink : Heatshrink) (settings : Option Key × UInt8) (bytes : Bytes) (h : Header)
    (body raw : Bytes) : Prop :=
  ∀ (RING : Nat) (receiver : Link RING), receiver.sealSettings = settings →
    (∃ exit, (receiver.authenticate heatshrink bytes h body).2 = .error exit) ∨
      (receiver.authenticate heatshrink bytes h body).2 = .ok (some raw)

/-- The frame on the air carries this data, or none. -/
def CarriesData (heatshrink : Heatshrink) (wire : (Option Key × UInt8) × UInt8)
    (framed : List Bytes) (data : Option Data) (bytes : Bytes) : Prop :=
  ∃ h body, parseHeader bytes = some (h, body) ∧ h.epoch = wire.2 ∧
    match data with
    | none => hasFlag h.flags fData = false
    | some p => h.seq = UInt8.ofNat p.index ∧ ∃ raw, framed[p.index]? = some raw ∧
        Opens heatshrink wire.1 bytes h body raw

/-- The frame on the air carries this acknowledgement. -/
def CarriesAck (epoch : UInt8) (ack : Ack) (bytes : Bytes) : Prop :=
  ∃ h body, parseHeader bytes = some (h, body) ∧ h.epoch = epoch ∧
    h.ack = UInt8.ofNat ack.cum ∧
    ∀ k < maxWin - 1, sackBit h.sack k = true → ack.sel (ack.cum + 1 + k)

/-- One direction of the link stands for a state of the protocol. -/
structure Flow (heatshrink : Heatshrink) (sender : End S) (receiver : End R) (s : State) :
    Prop where
  protocol : SelectiveRepeat.Invariant maxWin s
  sender_valid : sender.link.Valid
  receiver_valid : receiver.link.Valid
  same_seal : receiver.link.sealSettings = sender.link.sealSettings
  short_tag : sender.link.cfg.tagLen.toNat ≤ tagMax
  sends : Sends sender.link sender.framed s
  receives : Receives receiver.link sender.framed receiver.read s
  data : List.Forall₂ (CarriesData heatshrink sender.link.wireView sender.framed) s.data sender.air
  acks : List.Forall₂ (CarriesAck receiver.link.myEpoch) s.acks receiver.air

/-- One direction keeps to the protocol. -/
def Flows (heatshrink : Heatshrink) (sender : End S) (receiver : End R) : Prop :=
  ∃ s, Flow heatshrink sender receiver s

/-! ### Reading the relation -/

namespace Sends

variable {sender : Link S} {framed : List Bytes} {s : State}

theorem length (sends : Sends sender framed s) (protocol : SelectiveRepeat.Invariant maxWin s) :
    s.base + sender.win.length = s.built := by
  have lengths := congrArg List.length sends.window
  have below := protocol.base_le
  rw [List.length_map, List.length_drop, ← sends.built] at lengths
  omega

theorem raw (sends : Sends sender framed s) {index : Nat} {f : Frame}
    (found : sender.win[index]? = some f) : framed[s.base + index]? = some f.raw := by
  rw [← List.getElem?_drop, ← sends.window, List.getElem?_map, found]
  rfl

theorem seq (sends : Sends sender framed s) (valid : sender.Valid) {index : Nat} {f : Frame}
    (found : sender.win[index]? = some f) : f.seq = UInt8.ofNat (s.base + index) := by
  rw [valid.send.seq_eq index f found, sends.base, ofNat_add]

/-- Marks other than `acked` are irrelevant. -/
theorem congr (sends : Sends sender framed s) {marked : Link S}
    (sameCargo : marked.win.map Frame.cargo = sender.win.map Frame.cargo)
    (sameAcked : marked.win.map Frame.acked = sender.win.map Frame.acked)
    (sameBase : marked.baseSeq = sender.baseSeq) : Sends marked framed s where
  built := sends.built
  base := sameBase.trans sends.base
  window := by
    rw [← sends.window]
    simpa [Frame.cargo, Function.comp_def] using congrArg (List.map Prod.snd) sameCargo
  acked := by
    intro index f found acked
    have marks := congrArg (fun list => list[index]?) sameAcked
    simp only [List.getElem?_map, found, Option.map_some] at marks
    obtain ⟨g, position, same⟩ := Option.map_eq_some_iff.mp marks.symm
    exact sends.acked index g position (same.trans acked)

theorem of_sendView (sends : Sends sender framed s) {other : Link S}
    (same : other.sendView = sender.sendView) : Sends other framed s := by
  have window : other.win = sender.win := congrArg Prod.fst same
  exact sends.congr (by rw [window]) (by rw [window]) (congrArg Prod.snd same)

end Sends

namespace Receives

variable {receiver : Link R} {framed : List Bytes} {read : Bytes} {s : State}

theorem of_receiveView (receives : Receives receiver framed read s) {other : Link R}
    (same : other.receiveView = receiver.receiveView) : Receives other framed read s := by
  simp only [Link.receiveView, Prod.mk.injEq] at same
  obtain ⟨slots, next, ring⟩ := same
  exact {
    next := next.trans receives.next
    slot := slots ▸ receives.slot
    held := fun n held => by
      rw [Link.holds, slots]
      exact receives.held n held
    out := ring ▸ receives.out }

/-- More frames may be built. -/
theorem extend (receives : Receives receiver framed read s) (within : s.delivered ≤ framed.length)
    (added : List Bytes) : Receives receiver (framed ++ added) read s where
  next := receives.next
  slot := by
    intro slot received
    obtain ⟨n, held, numbered, found⟩ := receives.slot slot received
    exact ⟨n, held, numbered, by
      rw [List.getElem?_append_left (List.getElem?_eq_some_iff.mp found).1, found]⟩
  held := receives.held
  out := by
    rw [List.take_append_of_le_length within]
    exact receives.out

/-- A held sequence number belongs to exactly one held frame. -/
theorem of_holds (receives : Receives receiver framed read s)
    (protocol : SelectiveRepeat.Invariant maxWin s) {n : Nat}
    (held : receiver.holds (UInt8.ofNat n) = true) (above : s.delivered ≤ n + 128)
    (below : n < s.delivered + 128) :
    s.held n ∧ framed[n]? = some (receiver.rx (slotOf (UInt8.ofNat n))).buf := by
  simp only [Link.holds, Bool.and_eq_true, beq_iff_eq] at held
  obtain ⟨m, member, numbered, found⟩ := receives.slot _ held.1
  obtain ⟨lower, upper⟩ := protocol.held_window m member
  unfold maxWin at upper
  obtain rfl : m = n := ofNat_inj_of_near (numbered.symm.trans held.2) (by omega) (by omega)
  exact ⟨member, found⟩

end Receives

theorem CarriesData.extend {heatshrink : Heatshrink} {wire : (Option Key × UInt8) × UInt8}
    {framed : List Bytes} {data : Option Data} {bytes : Bytes}
    (carries : CarriesData heatshrink wire framed data bytes) (added : List Bytes) :
    CarriesData heatshrink wire (framed ++ added) data bytes := by
  obtain ⟨h, body, parsed, epoch, cargo⟩ := carries
  refine ⟨h, body, parsed, epoch, ?_⟩
  cases data with
  | none => exact cargo
  | some p =>
      obtain ⟨numbered, raw, found, opens⟩ := cargo
      refine ⟨numbered, raw, ?_, opens⟩
      rw [List.getElem?_append_left (List.getElem?_eq_some_iff.mp found).1, found]

/-! ### The start -/

/-- The end has received nothing. -/
structure Quiet (receiver : End R) : Prop where
  next : receiver.link.rxNext = 0
  empty : ∀ slot, (receiver.link.rx slot).received = false
  nothing : receiver.read ++ receiver.link.rRing.contents = []

/-- Nothing is framed, nothing is received, and what the receiver has on the air
reports so. -/
theorem Flow.start {heatshrink : Heatshrink} {sender : End S} {receiver : End R}
    (sender_valid : sender.link.Valid) (receiver_valid : receiver.link.Valid)
    (same_seal : receiver.link.sealSettings = sender.link.sealSettings)
    (short_tag : sender.link.cfg.tagLen.toNat ≤ tagMax) (window : sender.link.win = [])
    (base : sender.link.baseSeq = 0) (framed : sender.framed = []) (air : sender.air = [])
    (quiet : Quiet receiver)
    (acks : ∀ bytes ∈ receiver.air,
      CarriesAck receiver.link.myEpoch ⟨0, fun _ => False⟩ bytes) :
    Flow heatshrink sender receiver (State.silent receiver.air.length) where
  protocol := SelectiveRepeat.invariant_silent maxWin _
  sender_valid := sender_valid
  receiver_valid := receiver_valid
  same_seal := same_seal
  short_tag := short_tag
  sends :=
    { built := by
        rw [framed]
        rfl
      base := base
      window := by
        rw [window, framed]
        rfl
      acked := by
        rw [window]
        simp }
  receives :=
    { next := quiet.next
      slot := fun slot received => by
        rw [quiet.empty slot] at received
        cases received
      held := fun _ held => held.elim
      out := quiet.nothing.trans (by rw [framed]; rfl) }
  data := by
    rw [air]
    exact .nil
  acks := by
    generalize receiver.air = air at acks
    change List.Forall₂ _ (List.replicate air.length _) air
    induction air with
    | nil => exact .nil
    | cons bytes rest inductionHypothesis =>
        exact .cons (acks bytes List.mem_cons_self) (inductionHypothesis fun later member =>
          acks later (List.mem_cons_of_mem _ member))

/-! ### The channel -/

private theorem exists_of_forall₂ {α β : Type} {relation : α → β → Prop} {left : List α}
    {right : List β} (related : List.Forall₂ relation left right) {value : β}
    (member : value ∈ right) : ∃ origin, relation origin value := by
  induction related with
  | nil => cases member
  | cons head _ inductionHypothesis =>
      rcases List.mem_cons.mp member with rfl | later
      · exact ⟨_, head⟩
      · exact inductionHypothesis later

private theorem forall₂_eraseIdx {α β : Type} {relation : α → β → Prop} {left : List α}
    {right : List β} (related : List.Forall₂ relation left right) (position : Nat) :
    List.Forall₂ relation (left.eraseIdx position) (right.eraseIdx position) := by
  induction related generalizing position with
  | nil => exact .nil
  | cons head tail inductionHypothesis =>
      cases position with
      | zero => exact tail
      | succ position => exact .cons head (inductionHypothesis position)

namespace Flow

variable {heatshrink : Heatshrink} {sender : End S} {receiver : End R} {s : State}

/-- Every frame of the sender on the air carries its epoch. -/
theorem epoch_of_air (flow : Flow heatshrink sender receiver s) {bytes : Bytes}
    (onAir : bytes ∈ sender.air) :
    ∃ h body, parseHeader bytes = some (h, body) ∧ h.epoch = sender.link.myEpoch := by
  obtain ⟨data, h, body, parsed, epoch, -⟩ := exists_of_forall₂ flow.data onAir
  exact ⟨h, body, parsed, epoch⟩

/-- Every frame of the receiver on the air carries its epoch. -/
theorem epoch_of_reports (flow : Flow heatshrink sender receiver s) {bytes : Bytes}
    (onAir : bytes ∈ receiver.air) :
    ∃ h body, parseHeader bytes = some (h, body) ∧ h.epoch = receiver.link.myEpoch := by
  obtain ⟨ack, h, body, parsed, epoch, -⟩ := exists_of_forall₂ flow.acks onAir
  exact ⟨h, body, parsed, epoch⟩

/-- The channel loses a frame of the sender. -/
theorem loseData (flow : Flow heatshrink sender receiver s) (position : Nat) :
    Flows heatshrink { sender with air := sender.air.eraseIdx position } receiver :=
  ⟨{ s with data := s.data.eraseIdx position },
    { flow with
      protocol := flow.protocol.step (.loseData position)
      sends := { flow.sends with }
      receives := { flow.receives with }
      data := forall₂_eraseIdx flow.data position }⟩

/-- The channel loses a frame of the receiver. -/
theorem loseAck (flow : Flow heatshrink sender receiver s) (position : Nat) :
    Flows heatshrink sender { receiver with air := receiver.air.eraseIdx position } :=
  ⟨{ s with acks := s.acks.eraseIdx position },
    { flow with
      protocol := flow.protocol.step (.loseAck position)
      sends := { flow.sends with }
      receives := { flow.receives with }
      acks := forall₂_eraseIdx flow.acks position }⟩

/-- The sender changes nothing this direction depends on. -/
theorem sender_congr (flow : Flow heatshrink sender receiver s) {other : End S}
    (valid : other.link.Valid) (sends : Sends other.link other.framed s)
    (wire : other.link.wireView = sender.link.wireView) (air : other.air = sender.air)
    (framed : other.framed = sender.framed) : Flow heatshrink other receiver s := by
  have settings : other.link.sealSettings = sender.link.sealSettings := congrArg Prod.fst wire
  exact {
    protocol := flow.protocol
    sender_valid := valid
    receiver_valid := flow.receiver_valid
    same_seal := flow.same_seal.trans settings.symm
    short_tag := by
      rw [show other.link.cfg.tagLen = sender.link.cfg.tagLen from congrArg Prod.snd settings]
      exact flow.short_tag
    sends := sends
    receives := framed ▸ flow.receives
    data := by
      rw [wire, air, framed]
      exact flow.data
    acks := flow.acks }

/-- The receiver changes nothing this direction depends on. -/
theorem receiver_congr (flow : Flow heatshrink sender receiver s) {other : End R}
    (valid : other.link.Valid) (receives : Receives other.link sender.framed other.read s)
    (wire : other.link.wireView = receiver.link.wireView) (air : other.air = receiver.air) :
    Flow heatshrink sender other s := by
  have epoch : other.link.myEpoch = receiver.link.myEpoch := congrArg Prod.snd wire
  exact { flow with
    receiver_valid := valid
    same_seal := (congrArg Prod.fst wire).trans flow.same_seal
    receives := receives
    acks := by
      rw [epoch, air]
      exact flow.acks }

end Flow

end LoraSerial.LinkLayer
