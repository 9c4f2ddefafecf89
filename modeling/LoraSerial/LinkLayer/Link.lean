import LoraSerial.Library.RingBuffer
import LoraSerial.LinkLayer.Ascon
import Mathlib.Data.Nat.Bitwise

/-!
Owns the link-layer state: constants, configuration, the two windows, the two
rings and the calls that only reset or read state. Transmission and reception are
separate modules.

The window array together with its fill count is a list of frames; a receive slot
keeps only the valid bytes of its buffer. `rDropped` counts the bytes that `RPush`
drops silently; the source has no such counter.
-/

namespace LoraSerial.LinkLayer

open Library

/-! ### Constants -/

def maxPay : Nat := 221
def fData : UInt8 := 0x01
def fComp : UInt8 := 0x02
def fEnc : UInt8 := 0x04
def fMore : UInt8 := 0x08
def ctrlMask : UInt8 := 0xF0
def hdr : Nat := 10
def ctrW : Nat := 8
def tagMax : Nat := 16
def maxFrame : Nat := hdr + ctrW + maxPay + tagMax
def addrBcast : UInt8 := 0xFF
def maxWin : Nat := 16
def decMax : Nat := maxPay + 64

def hasFlag (flags flag : UInt8) : Bool :=
  flags &&& flag != 0

/-! ### State -/

/-- `persistCb` says whether the counter callback is set. -/
structure Config where
  addr : UInt8
  peer : UInt8
  window : UInt8
  retransmitMs : UInt32
  compress : Bool
  encrypt : Bool
  key : Option Key
  epoch : UInt8
  tagLen : UInt8
  startCtr : UInt64
  persistStride : UInt32
  persistCb : Bool
deriving DecidableEq

/-- The member defaults of the source. -/
def Config.default : Config where
  addr := 1
  peer := 0
  window := 8
  retransmitMs := 1200
  compress := false
  encrypt := false
  key := none
  epoch := 1
  tagLen := 8
  startCtr := 0
  persistStride := 256
  persistCb := false

structure Frame where
  seq : UInt8
  raw : Bytes
  sentAt : UInt32
  everSent : Bool
  txThisTurn : Bool
  acked : Bool
  fastResend : Bool
deriving DecidableEq, Repr

structure RxSlot where
  buf : Bytes
  seq : UInt8
  received : Bool
deriving DecidableEq, Repr

structure Link (RING : Nat) where
  cfg : Config
  win : List Frame
  rx : Fin 16 → RxSlot
  baseSeq : UInt8
  nextSeq : UInt8
  rxNext : UInt8
  txCtr64 : UInt64
  lastPersist : UInt64
  rxCtrMax : UInt64
  rxWindow : UInt64
  rxCtrInit : Bool
  ackPending : Bool
  ackSentTurn : Bool
  gotData : Bool
  peerReset : Bool
  gotValidRx : Bool
  myEpoch : UInt8
  peerEpoch : UInt8
  txCtrl : UInt8
  rxCtrl : UInt8
  txAux : UInt8
  rxAux : UInt8
  statTx : UInt32
  statRetx : UInt32
  sRing : RingBuffer UInt8 RING
  rRing : RingBuffer UInt8 RING
  rDropped : Nat

/-- `seq & (MAXWIN - 1)` -/
def slotOf (seq : UInt8) : Fin 16 :=
  ⟨(seq &&& 15).toNat, by
    rw [UInt8.toNat_and]
    exact Nat.lt_of_le_of_lt Nat.and_le_right (by decide)⟩

@[simp] theorem slotOf_val (seq : UInt8) : (slotOf seq).val = seq.toNat % 16 := by
  change (seq &&& 15).toNat = seq.toNat % 16
  rw [UInt8.toNat_and]
  exact Nat.and_two_pow_sub_one_eq_mod seq.toNat 4

theorem slotOf_eq_iff {seq : UInt8} {slot : Fin 16} :
    slotOf seq = slot ↔ seq.toNat % maxWin = slot.val := by
  rw [Fin.ext_iff, slotOf_val]
  rfl

namespace Link

variable {RING : Nat}

/-- Zeroed static storage, before the first `Init`. -/
def zeroed (c : Config) : Link RING where
  cfg := c
  win := []
  rx := fun _ => { buf := [], seq := 0, received := false }
  baseSeq := 0
  nextSeq := 0
  rxNext := 0
  txCtr64 := 0
  lastPersist := 0
  rxCtrMax := 0
  rxWindow := 0
  rxCtrInit := false
  ackPending := false
  ackSentTurn := false
  gotData := false
  peerReset := false
  gotValidRx := false
  myEpoch := 0
  peerEpoch := 0
  txCtrl := 0
  rxCtrl := 0
  txAux := 0
  rxAux := 0
  statTx := 0
  statRetx := 0
  sRing := { cells := fun _ => 0, head := 0, tail := 0 }
  rRing := { cells := fun _ => 0, head := 0, tail := 0 }
  rDropped := 0

/-- Some frame is buffered for `seq`. -/
def holds (link : Link RING) (seq : UInt8) : Bool :=
  (link.rx (slotOf seq)).received && (link.rx (slotOf seq)).seq == seq

def clearReceived (rx : Fin 16 → RxSlot) : Fin 16 → RxSlot :=
  fun slot => { rx slot with received := false }

/-! ### Calls that reset or read state -/

def clampWindow (window : UInt8) : UInt8 :=
  let window := if UInt8.ofNat maxWin < window then UInt8.ofNat maxWin else window
  if window < 1 then 1 else window

def clampConfig (c : Config) : Config :=
  { c with
    window := clampWindow c.window
    tagLen := if c.tagLen = 0 ∨ UInt8.ofNat tagMax < c.tagLen then 8 else c.tagLen }

/-- `Init` on whatever the memory holds: receive buffers, ring cells and the two
edges `peer_reset_` and `got_valid_rx_` stay as they are. -/
def init (link : Link RING) (c : Config) : Link RING :=
  let cfg := clampConfig c
  { link with
    cfg := cfg
    sRing := link.sRing.clear
    rRing := link.rRing.clear
    win := []
    baseSeq := 0
    nextSeq := 0
    rxNext := 0
    ackPending := false
    ackSentTurn := false
    gotData := false
    txCtr64 := cfg.startCtr
    lastPersist := cfg.startCtr
    rxCtrMax := 0
    rxWindow := 0
    rxCtrInit := false
    myEpoch := if cfg.epoch ≠ 0 then cfg.epoch else 1
    peerEpoch := 0
    txCtrl := 0
    rxCtrl := 0
    txAux := 0
    rxAux := 0
    statTx := 0
    statRetx := 0
    rx := clearReceived link.rx }

def setTiming (link : Link RING) (window : UInt8) (retransmitMs : UInt32) : Link RING :=
  { link with cfg := { link.cfg with
      window := clampWindow window
      retransmitMs := retransmitMs } }

/-- The next epoch byte: incremented, skipping 0. -/
def nextEpoch (epoch : UInt8) : UInt8 :=
  if epoch + 1 = 0 then 1 else epoch + 1

def newSession (link : Link RING) : Link RING :=
  { link with
    sRing := link.sRing.clear
    rRing := link.rRing.clear
    win := []
    baseSeq := 0
    nextSeq := 0
    rxNext := 0
    ackPending := false
    ackSentTurn := false
    gotData := false
    rx := clearReceived link.rx
    rxCtrl := 0
    rxAux := 0
    myEpoch := nextEpoch link.myEpoch }

def takeGotData (link : Link RING) : Bool × Link RING :=
  (link.gotData, { link with gotData := false })

def takePeerReset (link : Link RING) : Bool × Link RING :=
  (link.peerReset, { link with peerReset := false })

def takeValidRx (link : Link RING) : Bool × Link RING :=
  (link.gotValidRx, { link with gotValidRx := false })

def setCtrlTx (link : Link RING) (bits : UInt8) : Link RING :=
  { link with txCtrl := bits &&& ctrlMask }

def setAuxTx (link : Link RING) (aux : UInt8) : Link RING :=
  { link with txAux := aux }

def hasWork (link : Link RING) : Bool :=
  0 < link.win.length || 0 < link.sRing.count || link.ackPending

/-! ### Application side -/

/-- Queue bytes while the send ring has room; returns how many were queued. -/
def write (link : Link RING) : Bytes → Nat × Link RING
  | [] => (0, link)
  | byte :: rest =>
      if 0 < link.sRing.free then
        let written := write { link with sRing := link.sRing.push byte } rest
        (written.1 + 1, written.2)
      else (0, link)

/-- Push one byte into the receive ring; drops it when the ring is full. -/
def rPush (link : Link RING) (byte : UInt8) : Link RING :=
  if (link.rRing.head + 1) % RING ≠ link.rRing.tail then
    { link with rRing := link.rRing.push byte }
  else { link with rDropped := link.rDropped + 1 }

/-- The next in-order frame is buffered and the receive ring has room for it. -/
def canDrain (link : Link RING) : Bool :=
  link.holds link.rxNext && (link.rx (slotOf link.rxNext)).buf.length ≤ link.rRing.free

/-- Deliver the next in-order frame. -/
def drainOne (link : Link RING) : Link RING :=
  let slot := slotOf link.rxNext
  let pushed := (link.rx slot).buf.foldl rPush link
  { pushed with
    rx := Function.update pushed.rx slot { pushed.rx slot with received := false }
    rxNext := pushed.rxNext + 1
    gotData := true }

def drainLoop : Nat → Link RING → Link RING
  | 0, link => link
  | fuel + 1, link => if link.canDrain then drainLoop fuel link.drainOne else link

/-- Each round empties one of the 16 slots, so 16 rounds are enough. -/
def drainInOrder (link : Link RING) : Link RING :=
  link.drainLoop maxWin

/-- Pop up to `max` bytes from the receive ring. -/
def readLoop : Nat → Link RING → Bytes × Link RING
  | 0, link => ([], link)
  | max + 1, link =>
      if 0 < link.rRing.count then
        let popped := link.rRing.pop
        let rest := readLoop max { link with rRing := popped.2 }
        (popped.1 :: rest.1, rest.2)
      else ([], link)

def read (link : Link RING) (max : Nat) : Bytes × Link RING :=
  let taken := link.readLoop max
  (taken.1, taken.2.drainInOrder)

end Link

end LoraSerial.LinkLayer
