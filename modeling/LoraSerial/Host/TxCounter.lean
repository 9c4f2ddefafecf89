import LoraSerial.Host.Board
import LoraSerial.LinkLayer.Sealing

/-!
Owns the frame counter over the life of a board: the counter kept in flash stays
within one stride of the counters in use, whatever boots, reconfigurations and
crashes happen, so the counters of sealed frames only rise until the kept counter
is lost. Losing it is an event of its own and is not excluded here.
-/

namespace LoraSerial.Host

open LinkLayer

variable {RING : Nat}

/-! ### Flash writes -/

namespace Flash

theorem writeAll_append (flash : Flash) (first rest : List FlashWrite) :
    flash.writeAll (first ++ rest) = (flash.writeAll first).writeAll rest :=
  List.foldl_append

theorem txctr_write {flash : Flash} {write : FlashWrite} (other : write.key ≠ .txctr) :
    (flash.write write).txctr = flash.txctr := by
  cases write with
  | putTxctr value => exact absurd rfl other
  | remove key =>
      cases key with
      | txctr => exact absurd rfl other
      | addr | peer | feat | pkey => rfl
  | putAddr | putPeer | putFeat | putPkey => rfl

theorem txctr_writeAll {flash : Flash} {writes : List FlashWrite}
    (other : ∀ write ∈ writes, write.key ≠ .txctr) :
    (flash.writeAll writes).txctr = flash.txctr := by
  induction writes generalizing flash with
  | nil => rfl
  | cons write rest inductionHypothesis =>
      have kept := @inductionHypothesis (flash.write write)
        fun later member => other later (List.mem_cons_of_mem _ member)
      exact kept.trans (txctr_write (other write List.mem_cons_self))

/-- Writes that neither put nor remove the kept counter are of other keys. -/
theorem key_ne_txctr {writes : List FlashWrite} (unput : ∀ value, .putTxctr value ∉ writes)
    (kept : .remove .txctr ∉ writes) : ∀ write ∈ writes, write.key ≠ .txctr := by
  intro write member key
  cases write with
  | putTxctr value => exact unput value member
  | remove removed =>
      cases key
      exact kept member
  | putAddr | putPeer | putFeat | putPkey => cases key

/-- Without a removal, the kept counter stays above any bound that all writes of it
respect. -/
theorem le_savedCtr_writeAll {flash : Flash} {writes : List FlashWrite} {bound : Nat}
    (start : bound ≤ flash.savedCtr.toNat) (kept : .remove .txctr ∉ writes)
    (above : ∀ value, .putTxctr value ∈ writes → bound ≤ value.toNat) :
    bound ≤ (flash.writeAll writes).savedCtr.toNat := by
  induction writes generalizing flash with
  | nil => exact start
  | cons write rest inductionHypothesis =>
      simp only [List.mem_cons, not_or] at kept
      refine @inductionHypothesis (flash.write write) ?_ kept.2
        fun value member => above value (List.mem_cons_of_mem _ member)
      by_cases other : write.key = .txctr
      · cases write with
        | putTxctr value => exact above value List.mem_cons_self
        | remove key =>
            cases other
            exact absurd rfl kept.1
        | putAddr | putPeer | putFeat | putPkey => cases other
      · rw [savedCtr, txctr_write other]
        exact start

end Flash

/-! ### Commands and the counter -/

/-- The commands that call `ApplyLinkConfig` on the counter kept in flash. -/
def Command.resumes : Command → Bool
  | .atAddr .. | .atPeer .. | .atEnc .. | .atComp .. | .rendezvous .. | .atTrain .. | .atPair .. =>
      true
  | _ => false

def Command.transmits : Command → Bool
  | .nextTx .. | .makePoll .. => true
  | _ => false

namespace Ram

/-- What the counter invariant reads of the link. -/
def counterState (ram : Ram RING) : Bool × UInt32 × UInt64 × UInt64 :=
  (ram.link.cfg.persistCb, ram.link.cfg.persistStride, ram.link.txCtr64, ram.link.lastPersist)

/-- The kinds of effect a command has on the counter. -/
inductive Counts (fw : Firmware) (flash : Flash) (ram : Ram RING) (c : Command)
    (effect : Effect RING) : Prop where
  | quiet (idle : c.transmits = false) (frame : effect.frame = none)
      (state : effect.ram.counterState = ram.counterState)
      (other : ∀ write ∈ effect.writes, write.key ≠ .txctr)
  | resumed (before after : List FlashWrite) (idle : c.transmits = false)
      (frame : effect.frame = none)
      (writes : effect.writes =
        before ++ .putTxctr (resumeCtr fw (flash.writeAll before)) :: after)
      (state : effect.ram.counterState =
        (true, fw.linkCtrStride, resumeCtr fw (flash.writeAll before),
          resumeCtr fw (flash.writeAll before)))
      (first : ∀ value, .putTxctr value ∉ before)
      (last : ∀ write ∈ after, write.key ≠ .txctr)
      (source : c.resumes = true ∨ .remove .txctr ∈ before)
  | transmitted (sent : Link.TxResult RING) (busy : c.transmits = true)
      (result : effect = ram.transmitted sent)
      (transmits : (ram.liveLink fw).Transmits sent)

/-- `ApplyLinkConfig` resumes one stride above the kept counter. -/
theorem toNat_resumeCtr {fw : Firmware} {flash : Flash}
    (room : flash.savedCtr.toNat + fw.linkCtrStride.toNat < 2 ^ 64) :
    (resumeCtr fw flash).toNat = flash.savedCtr.toNat + fw.linkCtrStride.toNat := by
  rw [resumeCtr, UInt64.toNat_add, UInt32.toNat_toUInt64, Nat.mod_eq_of_lt room]

theorem resumeCtr_writeAll {fw : Firmware} {flash : Flash} {writes : List FlashWrite}
    (other : ∀ write ∈ writes, write.key ≠ .txctr) :
    resumeCtr fw (flash.writeAll writes) = resumeCtr fw flash := by
  simp only [resumeCtr, Flash.savedCtr, Flash.txctr_writeAll other]

theorem command_counts (fw : Firmware) (board : Board RING) (ram : Ram RING) (c : Command) :
    Counts fw board.flash ram c (ram.command fw board c) := by
  have silent : ∀ {after : Ram RING}, c.transmits = false →
      after.counterState = ram.counterState →
      Counts fw board.flash ram c after.quiet :=
    fun idle state => .quiet idle rfl state (by simp [Ram.quiet])
  have reconfigured : ∀ (configured : Ram RING) (random : UInt32), c.transmits = false →
      c.resumes = true →
      Counts fw board.flash ram c (configured.reconfigure fw board random) :=
    fun configured random idle resumes =>
      .resumed [] [] idle rfl rfl rfl (by simp) (by simp) (Or.inl resumes)
  cases c with
  | atAddr value random => exact reconfigured _ random rfl rfl
  | atPeer value random => exact reconfigured _ random rfl rfl
  | atEnc on random => exact reconfigured _ random rfl rfl
  | atComp on random => exact reconfigured _ random rfl rfl
  | rendezvous random => exact reconfigured _ random rfl rfl
  | atFs on => exact silent rfl rfl
  | atSave => exact .quiet rfl rfl rfl (by simp [command, FlashWrite.key])
  | atTrain random =>
      exact .resumed [.putPkey (.pairing board.pairings)] [] rfl rfl rfl rfl (by simp) (by simp)
        (Or.inl rfl)
  | atPair addr peer random =>
      exact .resumed [.putPkey (.pairing board.pairings)] [.putAddr addr, .putPeer peer] rfl rfl
        rfl rfl (by simp) (by simp [FlashWrite.key]) (Or.inl rfl)
  | atFactoryReset order random =>
      exact .resumed (clearWrites order) [] rfl rfl rfl rfl (by simp [clearWrites]) (by simp)
        (Or.inr (by simp [clearWrites]))
  | hostReconnect => exact silent rfl rfl
  | peerReset => exact silent rfl rfl
  | newSession => exact silent rfl rfl
  | driveInitiator =>
      simp only [command, ensureStarted]
      split
      · split <;> exact silent rfl rfl
      · exact silent rfl rfl
  | handshakeInit peerPub =>
      simp only [command, ensureStarted]
      split
      · split <;> exact silent rfl rfl
      · exact silent rfl rfl
  | handshakeResp peerPub =>
      simp only [command]
      split <;> exact silent rfl rfl
  | applyTiming window retransmitMs => exact silent rfl rfl
  | write d =>
      obtain ⟨ring, written⟩ := ram.link.write_link d
      exact silent rfl (by simp only [counterState, withLink, written])
  | read max =>
      obtain ⟨ring, dropped, rx, next, got, taken⟩ := ram.link.read_link max
      exact silent rfl (by simp only [counterState, withLink, taken])
  | beginTurn => exact silent rfl rfl
  | setCtrlTx bits => exact silent rfl rfl
  | setAuxTx aux => exact silent rfl rfl
  | nextTx cap now =>
      exact .transmitted _ rfl rfl ((ram.liveLink fw).nextTx_transmits fw.heatshrink cap now)
  | makePoll cap =>
      exact .transmitted _ rfl rfl ((ram.liveLink fw).makePoll_transmits fw.heatshrink cap)
  | onRx input =>
      have kept := (ram.liveLink fw).sealState_onRx fw.heatshrink input
      simp only [Link.sealState, Prod.mk.injEq] at kept
      obtain ⟨cfg, -, ctr, persist⟩ := kept
      refine silent rfl ?_
      simp only [counterState, withLink, cfg, ctr, persist]
      rfl

/-- The kept counter is the last one saved, less than a stride behind. -/
structure Reserves (fw : Firmware) (ram : Ram RING) (flash : Flash) : Prop where
  callback : ram.link.cfg.persistCb = true
  stride : ram.link.cfg.persistStride = fw.linkCtrStride
  stored : flash.txctr = some ram.link.lastPersist
  reached : ram.link.lastPersist.toNat ≤ ram.link.txCtr64.toNat
  near : ram.link.txCtr64.toNat < ram.link.lastPersist.toNat + fw.linkCtrStride.toNat

theorem reserves_of_counterState {fw : Firmware} {flash after : Flash} {ram next : Ram RING}
    (reserves : ram.Reserves fw flash) (kept : after.txctr = flash.txctr)
    (same : next.counterState = ram.counterState) : next.Reserves fw after := by
  simp only [counterState, Prod.mk.injEq] at same
  obtain ⟨callback, stride, ctr, persist⟩ := same
  exact
    { callback := callback.trans reserves.callback
      stride := stride.trans reserves.stride
      stored := by rw [kept, reserves.stored, persist]
      reached := by rw [ctr, persist]; exact reserves.reached
      near := by rw [ctr, persist]; exact reserves.near }

/-- `ApplyLinkConfig` starts at the counter it has just kept. -/
theorem reserves_of_resumed {fw : Firmware} {flash : Flash} {ram : Ram RING} {start : UInt64}
    (positive : 0 < fw.linkCtrStride) (stored : flash.txctr = some start)
    (state : ram.counterState = (true, fw.linkCtrStride, start, start)) :
    ram.Reserves fw flash := by
  simp only [counterState, Prod.mk.injEq] at state
  obtain ⟨callback, stride, ctr, persist⟩ := state
  have positive : 0 < fw.linkCtrStride.toNat := UInt32.lt_iff_toNat_lt.mp positive
  exact
    { callback := callback
      stride := stride
      stored := by rw [stored, persist]
      reached := by rw [ctr, persist]
      near := by rw [ctr, persist]; omega }

theorem toNat_succ {ctr : UInt64} (room : ctr.toNat + 1 < 2 ^ 64) :
    (ctr + 1).toNat = ctr.toNat + 1 := by
  rw [UInt64.toNat_add]
  exact Nat.mod_eq_of_lt room

/-- A sealed frame takes the next counter, and saves it once a stride is used up. -/
theorem reserves_of_sealed {fw : Firmware} {flash : Flash} {ram : Ram RING}
    (positive : 0 < fw.linkCtrStride) (reserves : ram.Reserves fw flash)
    {sent : Link.TxResult RING}
    (persisted : sent.persisted = (ram.liveLink fw).nextCounter.2)
    (state : sent.link.sealState = (ram.liveLink fw).nextCounter.1.sealState)
    (room : ram.link.txCtr64.toNat + 1 < 2 ^ 64) :
    (ram.transmitted sent).ram.Reserves fw (flash.writeAll (ram.transmitted sent).writes) ∧
      sent.link.txCtr64 = ram.link.txCtr64 + 1 := by
  have positive : 0 < fw.linkCtrStride.toNat := UInt32.lt_iff_toNat_lt.mp positive
  obtain ⟨callback, stride, stored, reached, near⟩ := reserves
  have next := toNat_succ room
  have ahead : (ram.link.txCtr64 + 1 - ram.link.lastPersist).toNat =
      ram.link.txCtr64.toNat + 1 - ram.link.lastPersist.toNat := by
    rw [UInt64.toNat_sub_of_le _ _ (UInt64.le_iff_toNat_le.mpr (by omega)), next]
  simp only [Link.nextCounter, Link.maybePersist, liveLink, callback, stride, true_and,
    UInt64.le_iff_toNat_le, ahead, UInt32.toNat_toUInt64] at persisted state
  split at persisted
  next full =>
    rw [if_pos full] at state
    simp only [Link.sealState, Prod.mk.injEq] at state
    obtain ⟨cfg, -, ctr, persist⟩ := state
    refine ⟨⟨?_, ?_, ?_, ?_, ?_⟩, ctr⟩
    · simp only [transmitted, cfg]
    · simp only [transmitted, cfg]
    · simp [transmitted, persisted, persist, Flash.writeAll, Flash.write]
    · simp only [transmitted, ctr, persist, Nat.le_refl]
    · simp only [transmitted, ctr, persist]
      omega
  next short =>
    rw [if_neg short] at state
    simp only [Link.sealState, Prod.mk.injEq] at state
    obtain ⟨cfg, -, ctr, persist⟩ := state
    refine ⟨⟨?_, ?_, ?_, ?_, ?_⟩, ctr⟩
    · simp only [transmitted, cfg]
    · simp only [transmitted, cfg]
    · simp [transmitted, persisted, persist, stored, Flash.writeAll]
    · simp only [transmitted, ctr, persist, next]
      omega
    · simp only [transmitted, ctr, persist, next]
      omega

/-- The command hands over a sealed frame. -/
def seals (fw : Firmware) (board : Board RING) (ram : Ram RING) (c : Command) : Bool :=
  ram.link.cfg.encrypt && (ram.command fw board c).frame.isSome

/-- The counters the command takes are below 2^64. -/
def CounterRoom (fw : Firmware) (board : Board RING) (ram : Ram RING) (c : Command) : Prop :=
  (c.resumes → board.flash.savedCtr.toNat + fw.linkCtrStride.toNat < 2 ^ 64) ∧
    (ram.seals fw board c → ram.link.txCtr64.toNat + 1 < 2 ^ 64)

instance (fw : Firmware) (board : Board RING) (ram : Ram RING) (c : Command) :
    Decidable (ram.CounterRoom fw board c) :=
  inferInstanceAs (Decidable (_ ∧ _))

theorem transmitted_cases {fw : Firmware} {board : Board RING} {ram : Ram RING} {c : Command}
    {sent : Link.TxResult RING} (result : ram.command fw board c = ram.transmitted sent)
    (transmits : (ram.liveLink fw).Transmits sent) :
    (ram.seals fw board c = false ∧ sent.persisted = none ∧
        (ram.transmitted sent).ram.counterState = ram.counterState) ∨
      (ram.seals fw board c = true ∧ sent.persisted = (ram.liveLink fw).nextCounter.2 ∧
        sent.link.sealState = (ram.liveLink fw).nextCounter.1.sealState) := by
  have unchanged : sent.link.sealState = (ram.liveLink fw).sealState →
      (ram.transmitted sent).ram.counterState = ram.counterState := by
    intro state
    simp only [Link.sealState, Prod.mk.injEq] at state
    obtain ⟨cfg, -, ctr, persist⟩ := state
    simp only [counterState, transmitted, cfg, ctr, persist]
    rfl
  cases transmits with
  | silent frame persisted state =>
      exact Or.inl ⟨by simp [seals, result, transmitted, frame], persisted, unchanged state⟩
  | sealed key h p keyed src epoch frame persisted state =>
      refine Or.inr ⟨?_, persisted, state⟩
      have encrypts : ram.link.cfg.encrypt = true := by
        by_contra off
        rw [Link.sealKey, if_neg (by exact off)] at keyed
        cases keyed
      simp [seals, result, transmitted, frame, encrypts]
  | plain h p unkeyed src epoch frame persisted state =>
      refine Or.inl ⟨?_, persisted, unchanged state⟩
      have plain : ram.link.cfg.encrypt = false := by
        by_contra encrypts
        rw [Bool.not_eq_false] at encrypts
        rw [Link.sealKey, if_pos (by exact encrypts)] at unkeyed
        cases unkeyed
      simp [seals, plain]

/-- A finished command leaves the kept counter less than a stride behind. -/
theorem reserves_command {fw : Firmware} {board : Board RING} {ram : Ram RING} {c : Command}
    (positive : 0 < fw.linkCtrStride) (reserves : ram.Reserves fw board.flash)
    (room : ram.CounterRoom fw board c) :
    (ram.command fw board c).ram.Reserves fw
      (board.flash.writeAll (ram.command fw board c).writes) := by
  cases ram.command_counts fw board c with
  | quiet idle frame state other =>
      exact reserves_of_counterState reserves (Flash.txctr_writeAll other) state
  | resumed before after idle frame writes state first last source =>
      refine reserves_of_resumed positive ?_ state
      rw [writes, Flash.writeAll_append]
      exact Flash.txctr_writeAll last
  | transmitted sent busy result transmits =>
      rcases transmitted_cases result transmits with
        ⟨silent, persisted, state⟩ | ⟨sealed, persisted, state⟩ <;> rw [result]
      · refine reserves_of_counterState reserves ?_ state
        simp [Ram.transmitted, persisted, Flash.writeAll]
      · exact (reserves_of_sealed positive reserves persisted state (room.2 sealed)).1

/-- Wherever the writes of a command stop, as long as the kept counter was not
removed, no value below it was written. -/
theorem savedCtr_le_put {fw : Firmware} {board : Board RING} {ram : Ram RING} {c : Command}
    (reserves : ram.Reserves fw board.flash) (room : ram.CounterRoom fw board c)
    {taken : List FlashWrite} (stopped : taken <+: (ram.command fw board c).writes)
    (kept : .remove .txctr ∉ taken) {value : UInt64} (put : .putTxctr value ∈ taken) :
    board.flash.savedCtr.toNat ≤ value.toNat := by
  cases ram.command_counts fw board c with
  | quiet idle frame state other => exact absurd rfl (other _ (stopped.subset put))
  | resumed before after idle frame writes state first last source =>
      rw [writes] at stopped
      rcases List.prefix_or_prefix_of_prefix stopped (List.prefix_append before _) with
        early | late
      · exact absurd (early.subset put) (first value)
      · have resumes : c.resumes = true :=
          source.resolve_right fun removed => kept (late.subset removed)
        have start : resumeCtr fw (board.flash.writeAll before) = resumeCtr fw board.flash :=
          resumeCtr_writeAll (Flash.key_ne_txctr first fun removed => kept (late.subset removed))
        rcases List.mem_append.mp (stopped.subset put) with inBefore | inRest
        · exact absurd inBefore (first value)
        · rcases List.mem_cons.mp inRest with isStart | inAfter
          · cases isStart
            rw [start, toNat_resumeCtr (room.1 resumes)]
            exact Nat.le_add_right _ _
          · exact absurd rfl (last _ inAfter)
  | transmitted sent busy result transmits =>
      have saved : board.flash.savedCtr = ram.link.lastPersist := by
        rw [Flash.savedCtr, reserves.stored, Option.getD_some]
      rw [result] at stopped
      have put := stopped.subset put
      rcases transmitted_cases result transmits with
        ⟨silent, persisted, -⟩ | ⟨sealed, persisted, -⟩
      · simp [Ram.transmitted, persisted] at put
      · have next := room.2 sealed
        have reached := reserves.reached
        simp only [Ram.transmitted, persisted, Link.nextCounter, Link.maybePersist] at put
        split at put
        · simp only [Option.map_some, Option.toList_some, List.mem_singleton,
            FlashWrite.putTxctr.injEq] at put
          rw [put, saved]
          change _ ≤ (ram.link.txCtr64 + 1).toNat
          rw [toNat_succ next]
          exact reached.trans (Nat.le_succ _)
        · simp at put

end Ram

namespace Ram

/-- What a finished command does to the live counter while the kept one survives. -/
theorem counter_command {fw : Firmware} {board : Board RING} {ram : Ram RING} {c : Command}
    (positive : 0 < fw.linkCtrStride) (reserves : ram.Reserves fw board.flash)
    (room : ram.CounterRoom fw board c)
    (kept : .remove .txctr ∉ (ram.command fw board c).writes) :
    (ram.seals fw board c = false ∧
        ((ram.command fw board c).ram.link.txCtr64 = ram.link.txCtr64 ∨
          (ram.command fw board c).ram.link.txCtr64.toNat =
            board.flash.savedCtr.toNat + fw.linkCtrStride.toNat)) ∨
      (ram.seals fw board c = true ∧
        (ram.command fw board c).ram.link.txCtr64 = ram.link.txCtr64 + 1) := by
  cases ram.command_counts fw board c with
  | quiet idle frame state other =>
      simp only [counterState, Prod.mk.injEq] at state
      exact Or.inl ⟨by simp [seals, frame], Or.inl state.2.2.1⟩
  | resumed before after idle frame writes state first last source =>
      refine Or.inl ⟨by simp [seals, frame], Or.inr ?_⟩
      have resumes : c.resumes = true :=
        source.resolve_right fun removed => kept (by simp [writes, removed])
      have start : resumeCtr fw (board.flash.writeAll before) = resumeCtr fw board.flash :=
        resumeCtr_writeAll
          (Flash.key_ne_txctr first fun removed => kept (by simp [writes, removed]))
      simp only [counterState, Prod.mk.injEq] at state
      rw [state.2.2.1, start, toNat_resumeCtr (room.1 resumes)]
  | transmitted sent busy result transmits =>
      rcases transmitted_cases result transmits with
        ⟨silent, -, state⟩ | ⟨sealed, persisted, state⟩
      · simp only [counterState, Prod.mk.injEq] at state
        rw [result]
        exact Or.inl ⟨silent, Or.inl state.2.2.1⟩
      · rw [result]
        exact Or.inr
          ⟨sealed, (reserves_of_sealed positive reserves persisted state (room.2 sealed)).2⟩

/-- A sealed frame carries the next counter under the current address and epoch. -/
theorem nonce_of_seals {fw : Firmware} {board : Board RING} {ram : Ram RING} {c : Command}
    (sealed : ram.seals fw board c = true) {bytes : Bytes}
    (handed : (ram.command fw board c).frame = some bytes) :
    frameNonce bytes = some (ram.link.cfg.addr, ram.link.myEpoch, ram.link.txCtr64 + 1) := by
  have encrypts : ram.link.cfg.encrypt = true := by
    simp only [seals, Bool.and_eq_true] at sealed
    exact sealed.1
  cases ram.command_counts fw board c with
  | quiet idle frame | resumed before after idle frame =>
      rw [frame] at handed
      cases handed
  | transmitted sent busy result transmits =>
      rw [result] at handed
      change sent.frame = some bytes at handed
      cases transmits with
      | silent frame =>
          rw [frame] at handed
          cases handed
      | sealed key h p keyed src epoch frame =>
          rw [frame] at handed
          cases handed
          rw [frameNonce_sealFrame, src, epoch]
          rfl
      | plain h p unkeyed =>
          rw [Link.sealKey, if_pos (by exact encrypts)] at unkeyed
          cases unkeyed

end Ram

/-! ### The life of a board -/

/-- A sealed frame: the key in force, its nonce, its bytes. -/
structure SealedFrame where
  key : KeyId
  nonce : Nonce
  bytes : Bytes
deriving DecidableEq

def SealedFrame.counter (frame : SealedFrame) : UInt64 :=
  frame.nonce.2.2

namespace Board

/-- The sealed frame an event hands over. -/
def sealedFrame (fw : Firmware) (board : Board RING) : Event → Option SealedFrame
  | .command c =>
      match board.ram with
      | none => none
      | some ram =>
          if ram.seals fw board c then
            match (ram.command fw board c).frame with
            | none => none
            | some bytes => (frameNonce bytes).map fun nonce => ⟨ram.linkKey, nonce, bytes⟩
          else none
  | _ => none

/-- The event removes the kept counter from flash: a factory reset, or a write of
the counter that is torn between its removal and its new value. -/
def loses (fw : Firmware) (board : Board RING) (event : Event) : Bool :=
  (board.writes fw event).contains (.remove .txctr)

/-- The counters the event takes are below 2^64. -/
def CounterRoom (fw : Firmware) (board : Board RING) : Event → Prop
  | .boot .. | .crashInBoot .. =>
      board.flash.savedCtr.toNat + fw.linkCtrStride.toNat < 2 ^ 64
  | .command c | .crashIn c .. =>
      match board.ram with
      | none => True
      | some ram => ram.CounterRoom fw board c
  | .crash => True

instance (fw : Firmware) (board : Board RING) (event : Event) :
    Decidable (board.CounterRoom fw event) := by
  unfold CounterRoom
  split
  · infer_instance
  · infer_instance
  · split <;> infer_instance
  · split <;> infer_instance
  · infer_instance

theorem sealedFrame_command {fw : Firmware} {board : Board RING} {ram : Ram RING} {c : Command}
    (on : board.ram = some ram) {frame : SealedFrame}
    (handed : board.sealedFrame fw (.command c) = some frame) :
    ram.seals fw board c = true ∧ frame.key = ram.linkKey ∧
      frame.nonce = (ram.link.cfg.addr, ram.link.myEpoch, ram.link.txCtr64 + 1) := by
  simp only [sealedFrame, on] at handed
  split at handed
  next sealed =>
    split at handed
    · cases handed
    next bytes emitted =>
      rw [Ram.nonce_of_seals sealed emitted, Option.map_some] at handed
      cases handed
      exact ⟨sealed, rfl, rfl⟩
  · cases handed

/-- A torn write adds at most a removal, so every put that happened was in order. -/
theorem mem_interrupted {writes : List FlashWrite} {done : Nat} {torn : Bool} {value : UInt64}
    (put : .putTxctr value ∈ interrupted writes done torn) :
    .putTxctr value ∈ writes.take done := by
  rcases List.mem_append.mp put with inTaken | inTorn
  · exact inTaken
  · split at inTorn
    · simp at inTorn
    · cases inTorn

end Board

/-- A board with the frames it has sealed, latest first, and how many of them came
after the kept counter was last lost. -/
structure Life (RING : Nat) where
  board : Board RING
  sealed : List SealedFrame
  fresh : Nat

namespace Life

/-- A new board, off, with anything in its flash. -/
def start (flash : Flash) : Life RING where
  board := { flash := flash, ram := none, pairings := 0, handshakes := 0 }
  sealed := []
  fresh := 0

def step (fw : Firmware) (life : Life RING) (event : Event) : Life RING where
  board := life.board.step fw event
  sealed := (life.board.sealedFrame fw event).toList ++ life.sealed
  fresh :=
    if life.board.loses fw event then 0
    else (life.board.sealedFrame fw event).toList.length + life.fresh

def run (fw : Firmware) (life : Life RING) (events : List Event) : Life RING :=
  events.foldl (step fw) life

/-- Every event of the run meets the condition in the state it meets. -/
def Meets (fw : Firmware) (condition : Life RING → Event → Prop) (life : Life RING) :
    List Event → Prop
  | [] => True
  | event :: rest => condition life event ∧ Meets fw condition (life.step fw event) rest

instance decidableMeets (fw : Firmware) (condition : Life RING → Event → Prop)
    [∀ life event, Decidable (condition life event)] (life : Life RING) :
    (events : List Event) → Decidable (life.Meets fw condition events)
  | [] => .isTrue trivial
  | event :: rest =>
      have := decidableMeets fw condition (life.step fw event) rest
      inferInstanceAs (Decidable (condition life event ∧ (life.step fw event).Meets fw condition rest))

/-- The frames sealed since the kept counter was last lost. -/
def recent (life : Life RING) : List SealedFrame :=
  life.sealed.take life.fresh

theorem recent_step (fw : Firmware) (life : Life RING) (event : Event) :
    (life.step fw event).recent =
      if life.board.loses fw event then []
      else (life.board.sealedFrame fw event).toList ++ life.recent := by
  simp only [recent, step]
  split
  · rfl
  · rw [List.take_append, List.take_of_length_le (by omega), Nat.add_sub_cancel_left]

/-- Recent counters rise, stay within a stride of the kept counter, and are not
above the live one. -/
structure CounterSafe (fw : Firmware) (life : Life RING) : Prop where
  reserves : ∀ ram, life.board.ram = some ram → ram.Reserves fw life.board.flash
  live : ∀ ram, life.board.ram = some ram → ∀ frame ∈ life.recent,
    frame.counter.toNat ≤ ram.link.txCtr64.toNat
  below : ∀ frame ∈ life.recent,
    frame.counter.toNat < life.board.flash.savedCtr.toNat + fw.linkCtrStride.toNat
  rising : life.recent.Pairwise fun later earlier => earlier.counter < later.counter

namespace CounterSafe

variable {fw : Firmware} {life : Life RING}

theorem start (fw : Firmware) (flash : Flash) :
    (Life.start flash : Life RING).CounterSafe fw where
  reserves := by simp [Life.start]
  live := by simp [Life.start]
  below := by simp [Life.start, recent]
  rising := List.Pairwise.nil

/-- The live counter of a board that boots on its kept counter. -/
theorem boot_counter (room : life.board.flash.savedCtr.toNat + fw.linkCtrStride.toNat < 2 ^ 64)
    (window : UInt8) (retransmitMs random : UInt32) :
    (Ram.boot fw life.board window retransmitMs random).ram.link.txCtr64.toNat =
      life.board.flash.savedCtr.toNat + fw.linkCtrStride.toNat :=
  Ram.toNat_resumeCtr room

theorem reserves_step (safe : life.CounterSafe fw) (positive : 0 < fw.linkCtrStride)
    {event : Event} (room : life.board.CounterRoom fw event) :
    ∀ ram, (life.step fw event).board.ram = some ram →
      ram.Reserves fw (life.step fw event).board.flash := by
  intro next on
  cases event with
  | boot window retransmitMs random =>
      cases on
      exact Ram.reserves_of_resumed positive rfl rfl
  | command c =>
      cases before : life.board.ram with
      | none => simp [Life.step, Board.step, Board.nextRam, before] at on
      | some ram =>
          simp only [Life.step, Board.step, Board.nextRam, Board.writes, before, Option.map_some,
            Option.some.injEq] at on ⊢
          simp only [Board.CounterRoom, before] at room
          exact on ▸ Ram.reserves_command positive (safe.reserves ram before) room
  | crash => cases on
  | crashInBoot => cases on
  | crashIn => cases on

/-- The kept counter does not fall while it is not lost. -/
theorem savedCtr_step (safe : life.CounterSafe fw) {event : Event}
    (room : life.board.CounterRoom fw event) (kept : life.board.loses fw event = false) :
    life.board.flash.savedCtr.toNat ≤ (life.step fw event).board.flash.savedCtr.toNat := by
  have kept : .remove .txctr ∉ life.board.writes fw event := by
    simpa [Board.loses] using kept
  refine Flash.le_savedCtr_writeAll (Nat.le_refl _) kept ?_
  intro value put
  have booted : ∀ window retransmitMs random,
      life.board.flash.savedCtr.toNat + fw.linkCtrStride.toNat < 2 ^ 64 →
      .putTxctr value ∈ (Ram.boot fw life.board window retransmitMs random).writes →
      life.board.flash.savedCtr.toNat ≤ value.toNat := by
    intro window retransmitMs random room put
    simp only [Ram.boot, List.mem_singleton, FlashWrite.putTxctr.injEq] at put
    rw [put, Ram.toNat_resumeCtr room]
    exact Nat.le_add_right _ _
  cases event with
  | boot window retransmitMs random => exact booted window retransmitMs random room put
  | crashInBoot window retransmitMs random done torn =>
      exact booted window retransmitMs random room
        (List.mem_of_mem_take (Board.mem_interrupted put))
  | crash => simp [Board.writes] at put
  | command c =>
      cases on : life.board.ram with
      | none => simp [Board.writes, on] at put
      | some ram =>
          simp only [Board.writes, on] at put kept
          simp only [Board.CounterRoom, on] at room
          exact Ram.savedCtr_le_put (safe.reserves ram on) room List.prefix_rfl kept put
  | crashIn c done torn =>
      cases on : life.board.ram with
      | none => simp [Board.writes, on] at put
      | some ram =>
          simp only [Board.writes, on] at put kept
          simp only [Board.CounterRoom, on] at room
          exact Ram.savedCtr_le_put (safe.reserves ram on) room (List.take_prefix done _)
            (fun removed => kept (List.mem_append_left _ removed)) (Board.mem_interrupted put)

/-- An event that seals nothing, and after which the live counter is the old one or
starts a stride above the kept one. -/
theorem of_silent (safe : life.CounterSafe fw) {next : Life RING}
    (recent : next.recent = life.recent)
    (reserves : ∀ ram, next.board.ram = some ram → ram.Reserves fw next.board.flash)
    (saved : life.board.flash.savedCtr.toNat ≤ next.board.flash.savedCtr.toNat)
    (live : ∀ ram, next.board.ram = some ram → ∀ frame ∈ life.recent,
      frame.counter.toNat ≤ ram.link.txCtr64.toNat) : next.CounterSafe fw where
  reserves := reserves
  live := recent ▸ live
  below := by
    intro frame member
    have old := safe.below frame (recent ▸ member)
    omega
  rising := recent ▸ safe.rising

/-- An event that takes one counter and hands over frames under that counter only. -/
theorem of_counted (safe : life.CounterSafe fw) {next : Life RING} {ram after : Ram RING}
    {handed : Option SealedFrame} (on : life.board.ram = some ram)
    (onAfter : next.board.ram = some after) (reserves : after.Reserves fw next.board.flash)
    (recent : next.recent = handed.toList ++ life.recent)
    (room : ram.link.txCtr64.toNat + 1 < 2 ^ 64)
    (counter : after.link.txCtr64 = ram.link.txCtr64 + 1)
    (newest : ∀ frame ∈ handed, frame.counter = ram.link.txCtr64 + 1) :
    next.CounterSafe fw := by
  have live := safe.live ram on
  have counted := Ram.toNat_succ room
  have atMost : ∀ frame ∈ next.recent, frame.counter.toNat ≤ after.link.txCtr64.toNat := by
    intro frame inRecent
    rw [counter, counted]
    rw [recent, List.mem_append, Option.mem_toList] at inRecent
    rcases inRecent with new | old
    · rw [newest frame new, counted]
    · exact (live frame old).trans (Nat.le_succ _)
  refine ⟨fun ram stays => ?_, fun ram stays => ?_, fun frame inRecent => ?_, ?_⟩
  · cases onAfter.symm.trans stays
    exact reserves
  · cases onAfter.symm.trans stays
    exact atMost
  · have near := reserves.near
    have bound := atMost frame inRecent
    rw [Flash.savedCtr, reserves.stored, Option.getD_some]
    omega
  · rw [recent]
    refine List.pairwise_append.mpr ⟨?_, safe.rising, ?_⟩
    · cases handed <;> simp
    · intro later new earlier old
      rw [newest later (Option.mem_toList.mp new), UInt64.lt_iff_toNat_lt, counted]
      exact Nat.lt_succ_of_le (live earlier old)

theorem step (safe : life.CounterSafe fw) (positive : 0 < fw.linkCtrStride) {event : Event}
    (room : life.board.CounterRoom fw event) : (life.step fw event).CounterSafe fw := by
  have reserves := safe.reserves_step positive room
  cases kept : life.board.loses fw event with
  | true =>
      have none : (life.step fw event).recent = [] := by rw [recent_step, kept, if_pos rfl]
      exact
        { reserves := reserves
          live := by simp [none]
          below := by simp [none]
          rising := none ▸ List.Pairwise.nil }
  | false =>
      have saved := safe.savedCtr_step room kept
      have grown := life.recent_step fw event
      rw [kept, if_neg Bool.false_ne_true] at grown
      cases event with
      | boot window retransmitMs random =>
          refine safe.of_silent grown reserves saved fun ram on frame member => ?_
          cases on
          rw [boot_counter room]
          exact Nat.le_of_lt (safe.below frame member)
      | crash => exact safe.of_silent grown reserves saved fun ram on => nomatch on
      | crashInBoot => exact safe.of_silent grown reserves saved fun ram on => nomatch on
      | crashIn => exact safe.of_silent grown reserves saved fun ram on => nomatch on
      | command c =>
          cases before : life.board.ram with
          | none =>
              have off : (life.step fw (.command c)).board.ram = none := by
                simp [Life.step, Board.step, Board.nextRam, before]
              have silent : life.board.sealedFrame fw (.command c) = none := by
                simp [Board.sealedFrame, before]
              rw [silent] at grown
              exact safe.of_silent grown reserves saved fun ram on => by simp [off] at on
          | some ram =>
              have after : (life.step fw (.command c)).board.ram =
                  some (ram.command fw life.board c).ram := by
                simp [Life.step, Board.step, Board.nextRam, before]
              simp only [Board.CounterRoom, before] at room
              have survives : .remove .txctr ∉ (ram.command fw life.board c).writes := by
                simpa [Board.loses, Board.writes, before] using kept
              rcases Ram.counter_command positive (safe.reserves ram before) room survives with
                ⟨silent, counter⟩ | ⟨sealed, counter⟩
              · have nothing : life.board.sealedFrame fw (.command c) = none := by
                  simp [Board.sealedFrame, before, silent]
                rw [nothing] at grown
                refine safe.of_silent grown reserves saved fun next on frame member => ?_
                cases after.symm.trans on
                rcases counter with same | restarted
                · rw [same]
                  exact safe.live ram before frame member
                · rw [restarted]
                  exact Nat.le_of_lt (safe.below frame member)
              · refine safe.of_counted before after (reserves _ after) grown (room.2 sealed) counter
                  fun frame handed => ?_
                exact congrArg (fun nonce => nonce.2.2)
                  (Board.sealedFrame_command before handed).2.2

theorem run (safe : life.CounterSafe fw) (positive : 0 < fw.linkCtrStride)
    {events : List Event}
    (room : life.Meets fw (fun life event => life.board.CounterRoom fw event) events) :
    (life.run fw events).CounterSafe fw := by
  induction events generalizing life with
  | nil => exact safe
  | cons event rest inductionHypothesis =>
      exact inductionHypothesis (safe.step positive room.1) room.2

end CounterSafe

/-- While the kept counter is never lost, every sealed frame is recent. -/
theorem recent_run {fw : Firmware} {life : Life RING} {events : List Event}
    (kept : life.Meets fw (fun life event => life.board.loses fw event = false) events)
    (whole : life.sealed.length ≤ life.fresh) :
    (life.run fw events).recent = (life.run fw events).sealed := by
  induction events generalizing life with
  | nil => exact List.take_of_length_le whole
  | cons event rest inductionHypothesis =>
      refine @inductionHypothesis (life.step fw event) kept.2 ?_
      simp only [step, kept.1, Bool.false_eq_true, if_false, List.length_append]
      omega

theorem Meets.imp {fw : Firmware} {weaker stronger : Life RING → Event → Prop}
    (implies : ∀ life event, stronger life event → weaker life event) {life : Life RING}
    {events : List Event} (meets : life.Meets fw stronger events) :
    life.Meets fw weaker events := by
  induction events generalizing life with
  | nil => trivial
  | cons event rest inductionHypothesis =>
      exact ⟨implies life event meets.1, inductionHypothesis meets.2⟩

/-- Over every life in which the kept counter is not lost and counters stay below
2^64, each sealed frame has a greater counter than all frames sealed before it,
whatever boots and crashes lie between them. -/
theorem sealed_counters_rise (fw : Firmware) (flash : Flash) (positive : 0 < fw.linkCtrStride)
    {events : List Event}
    (meets : (start flash : Life RING).Meets fw
      (fun life event => life.board.CounterRoom fw event ∧ life.board.loses fw event = false)
      events) :
    ((start flash : Life RING).run fw events).sealed.Pairwise
      fun later earlier => earlier.counter < later.counter := by
  have safe := (CounterSafe.start fw flash).run positive (meets.imp fun _ _ both => both.1)
  rw [← recent_run (meets.imp fun _ _ both => both.2) (Nat.le_refl 0)]
  exact safe.rising

end Life

/-- A build with the default settings, whose derived keys tell their origin. -/
def Firmware.default : Firmware where
  heatshrink := Heatshrink.copying
  keyOf
    | .builtin => linkKey
    | .pairing number => Vector.replicate 16 (UInt8.ofNat number)
    | .session number _ => Vector.replicate 16 (UInt8.ofNat (0x80 + number))
  linkCtrStride := 256
  linkTagLen := 8
  nodeAddr := 1
  peerAddr := 0
  featDefault := featComp ||| featEnc

/-- Nothing stored. -/
def Flash.empty : Flash where
  addr := none
  peer := none
  feat := none
  txctr := none
  pkey := none

/-- A boot, a poll, a crash inside the next poll, a boot that crashes after its
write, and a last boot with a poll. -/
def crashingEvents : List Event :=
  [.boot 8 1200 7, .command (.makePoll 255), .crashIn (.makePoll 255) 0 false,
    .crashInBoot 8 1200 7 1 false, .boot 8 1200 7, .command (.makePoll 255)]

theorem sealed_counters_rise_crashing :
    (((Life.start Flash.empty : Life 64).run Firmware.default crashingEvents).sealed.Pairwise
      fun later earlier => earlier.counter < later.counter) ∧
      ((Life.start Flash.empty : Life 64).run Firmware.default crashingEvents).sealed.map
        SealedFrame.counter = [769, 257] :=
  ⟨Life.sealed_counters_rise Firmware.default Flash.empty (by decide) (by decide +kernel),
    by decide +kernel⟩

end LoraSerial.Host
