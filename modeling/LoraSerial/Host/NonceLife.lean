import LoraSerial.Host.TxCounter

/-!
Owns nonce uniqueness over the whole life of a board. Frames sealed since the kept
counter was last lost differ in their counters. A frame sealed before that loss
can only share a nonce with a later one when key, address and epoch all come back,
and a factory reset can bring all three back.
-/

namespace LoraSerial.Host

open LinkLayer

variable {RING : Nat}

namespace Life

/-- The frames sealed before the kept counter was last lost. -/
def stale (life : Life RING) : List SealedFrame :=
  life.sealed.drop life.fresh

/-- A frame is sealed only while key, address and epoch in force are not all those
of a frame sealed before the kept counter was last lost. -/
def KeySeparated (fw : Firmware) (life : Life RING) : Event → Prop
  | .command c =>
      match life.board.ram with
      | none => True
      | some ram =>
          ram.seals fw life.board c → ∀ old ∈ life.stale,
            (old.key, old.nonce.1, old.nonce.2.1) ≠
              (ram.linkKey, ram.link.cfg.addr, ram.link.myEpoch)
  | _ => True

instance (fw : Firmware) (life : Life RING) (event : Event) :
    Decidable (life.KeySeparated fw event) :=
  match event with
  | .command c =>
      match on : life.board.ram with
      | none => .isTrue (by simp [KeySeparated, on])
      | some ram => decidable_of_iff
          (ram.seals fw life.board c → ∀ old ∈ life.stale,
            (old.key, old.nonce.1, old.nonce.2.1) ≠
              (ram.linkKey, ram.link.cfg.addr, ram.link.myEpoch))
          (by simp [KeySeparated, on])
  | .boot .. | .crash | .crashInBoot .. | .crashIn .. => .isTrue trivial

/-- A command that seals a frame removes nothing. -/
theorem loses_of_sealedFrame {fw : Firmware} {board : Board RING} {event : Event}
    {frame : SealedFrame} (handed : board.sealedFrame fw event = some frame) :
    board.loses fw event = false := by
  cases event with
  | command c =>
      cases on : board.ram with
      | none => simp [Board.sealedFrame, on] at handed
      | some ram =>
          have sealed := (Board.sealedFrame_command on handed).1
          simp only [Board.loses, Board.writes, on]
          cases ram.command_counts fw board c with
          | quiet idle noFrame | resumed before after idle noFrame =>
              simp [Ram.seals, noFrame] at sealed
          | transmitted sent busy result transmits =>
              rw [result]
              cases persisted : sent.persisted <;> simp [Ram.transmitted, persisted]
  | boot | crash | crashInBoot | crashIn => cases handed

/-- The new frame of an event shares no key and nonce with an older one. -/
theorem sealedFrame_fresh {fw : Firmware} {life : Life RING} {event : Event}
    {frame : SealedFrame} (next : (life.step fw event).CounterSafe fw)
    (separated : life.KeySeparated fw event)
    (handed : life.board.sealedFrame fw event = some frame) :
    ∀ old ∈ life.sealed, (frame.key, frame.nonce) ≠ (old.key, old.nonce) := by
  intro old member same
  obtain ⟨sameKey, sameNonce⟩ := Prod.mk.inj same
  have split : old ∈ life.recent ∨ old ∈ life.stale := by
    rw [← List.mem_append, recent, stale, List.take_append_drop]
    exact member
  rcases split with new | lost
  · have rising := next.rising
    rw [recent_step, loses_of_sealedFrame handed, if_neg Bool.false_ne_true, handed] at rising
    have greater := (List.pairwise_cons.mp rising).1 old new
    rw [SealedFrame.counter, SealedFrame.counter, sameNonce] at greater
    exact absurd greater (UInt64.lt_irrefl _)
  · cases event with
    | command c =>
        cases on : life.board.ram with
        | none => simp [Board.sealedFrame, on] at handed
        | some ram =>
            obtain ⟨sealed, key, nonce⟩ := Board.sealedFrame_command on handed
            simp only [KeySeparated, on] at separated
            refine separated sealed old lost ?_
            rw [← sameKey, ← sameNonce, key, nonce]
    | boot | crash | crashInBoot | crashIn => cases handed

theorem sealed_nonces_step {fw : Firmware} {life : Life RING} {event : Event}
    (next : (life.step fw event).CounterSafe fw) (separated : life.KeySeparated fw event)
    (distinct : life.sealed.Pairwise fun later earlier =>
      (later.key, later.nonce) ≠ (earlier.key, earlier.nonce)) :
    (life.step fw event).sealed.Pairwise fun later earlier =>
      (later.key, later.nonce) ≠ (earlier.key, earlier.nonce) := by
  simp only [step]
  cases handed : life.board.sealedFrame fw event with
  | none => exact distinct
  | some frame =>
      exact List.pairwise_cons.mpr ⟨sealedFrame_fresh next separated handed, distinct⟩

theorem sealed_nonces_run {fw : Firmware} {life : Life RING} (positive : 0 < fw.linkCtrStride)
    (safe : life.CounterSafe fw) {events : List Event}
    (meets : life.Meets fw
      (fun life event => life.board.CounterRoom fw event ∧ life.KeySeparated fw event) events)
    (distinct : life.sealed.Pairwise fun later earlier =>
      (later.key, later.nonce) ≠ (earlier.key, earlier.nonce)) :
    (life.run fw events).sealed.Pairwise fun later earlier =>
      (later.key, later.nonce) ≠ (earlier.key, earlier.nonce) := by
  induction events generalizing life with
  | nil => exact distinct
  | cons event rest inductionHypothesis =>
      obtain ⟨⟨room, separated⟩, rest⟩ := meets
      have next := safe.step positive room
      exact inductionHypothesis next rest (sealed_nonces_step next separated distinct)

/-- Over every life in which counters stay below 2^64 and no frame is sealed under
key, address and epoch of a frame sealed before the last loss of the kept counter,
no two sealed frames share key and nonce, provided the keys used are different
where their origins are. -/
theorem sealed_nonces_distinct (fw : Firmware) (flash : Flash) (positive : 0 < fw.linkCtrStride)
    {events : List Event}
    (meets : (start flash : Life RING).Meets fw
      (fun life event => life.board.CounterRoom fw event ∧ life.KeySeparated fw event) events)
    (derived : ∀ left ∈ ((start flash : Life RING).run fw events).sealed,
      ∀ right ∈ ((start flash : Life RING).run fw events).sealed,
        fw.keyOf left.key = fw.keyOf right.key → left.key = right.key) :
    ((start flash : Life RING).run fw events).sealed.Pairwise fun later earlier =>
      (fw.keyOf later.key, later.nonce) ≠ (fw.keyOf earlier.key, earlier.nonce) := by
  have distinct := sealed_nonces_run positive (CounterSafe.start fw flash) meets
    List.Pairwise.nil
  refine distinct.imp_of_mem fun {later earlier} laterIn earlierIn differ same => ?_
  obtain ⟨sameKey, sameNonce⟩ := Prod.mk.inj same
  exact differ (Prod.ext (derived later laterIn earlier earlierIn sameKey) sameNonce)

end Life

/-- A poll, then a pairing and a handshake, each followed by a poll, and a factory
reset that draws another epoch. -/
def rekeyingEvents : List Event :=
  [.boot 8 1200 7, .command (.makePoll 255), .command (.atTrain 7), .command (.makePoll 255),
    .command (.atFs true), .command (.handshakeInit [1, 2, 3]), .command (.makePoll 255),
    .command (.atFactoryReset [] 9), .command (.makePoll 255)]

theorem sealed_nonces_distinct_rekeying :
    (((Life.start Flash.empty : Life 64).run Firmware.default rekeyingEvents).sealed.Pairwise
      fun later earlier => (Firmware.default.keyOf later.key, later.nonce) ≠
        (Firmware.default.keyOf earlier.key, earlier.nonce)) ∧
      ((Life.start Flash.empty : Life 64).run Firmware.default rekeyingEvents).sealed.length = 4 :=
  ⟨Life.sealed_nonces_distinct Firmware.default Flash.empty (by decide) (by decide +kernel)
    (by decide +kernel), by decide +kernel⟩

/-- A new board polls, is reset to factory settings, draws its epoch again and
polls with another telemetry byte. -/
def factoryResetEvents : List Event :=
  [.boot 8 1200 7, .command (.makePoll 255), .command (.atFactoryReset [] 7),
    .command (.setAuxTx 1), .command (.makePoll 255)]

/-- The factory reset rewinds the counter under the built-in key: two different
frames are sealed with one key and nonce. -/
theorem factory_reset_reuses_nonce :
    ((Life.start Flash.empty : Life 64).run Firmware.default factoryResetEvents).sealed.map
        (fun frame => (frame.key, frame.nonce)) =
      [(.builtin, (1, 7, 257)), (.builtin, (1, 7, 257))] ∧
    ((Life.start Flash.empty : Life 64).run Firmware.default factoryResetEvents).sealed.Pairwise
      (fun later earlier => later.bytes ≠ earlier.bytes) ∧
    ¬((Life.start Flash.empty : Life 64).run Firmware.default factoryResetEvents).sealed.Pairwise
      (fun later earlier => (Firmware.default.keyOf later.key, later.nonce) ≠
        (Firmware.default.keyOf earlier.key, earlier.nonce)) := by
  decide +kernel

end LoraSerial.Host
