import LoraSerial.LinkLayer.Link
import LoraSerial.LinkLayer.Transform

/-!
Owns the sending side: wire header, nonce, frame sealing with the counter and its
persist callback, window filling, the choice of the next frame, lone acks and
polls.
-/

namespace LoraSerial.LinkLayer

open Library Library.WordBytes

/-! ### Wire format -/

structure Header where
  src : UInt8
  dst : UInt8
  flags : UInt8
  seq : UInt8
  ack : UInt8
  epoch : UInt8
  sack : UInt16
  len : UInt8
  aux : UInt8
deriving DecidableEq, Repr

def headerBytes (h : Header) : Bytes :=
  [h.src, h.dst, h.flags, h.seq, h.ack, h.epoch, (h.sack >>> 8).toUInt8,
    (h.sack &&& 0xFF).toUInt8, h.len, h.aux]

/-- `src ‖ epoch ‖ ctr ‖ zeros`, 16 bytes. -/
def buildNonce (src epoch : UInt8) (ctr : UInt64) : Bytes :=
  [src, epoch] ++ storeBe ctrW ctr ++ List.replicate 6 0

/-- Header, counter, ciphertext, tag prefix. -/
def sealFrame (key : Key) (tagLen : Nat) (h : Header) (ctr : UInt64) (p : Bytes) : Bytes :=
  let ad := headerBytes h ++ storeBe ctrW ctr
  let sealed := ascon128Encrypt key (buildNonce h.src h.epoch ctr) ad p
  ad ++ sealed.1 ++ sealed.2.take tagLen

namespace Link

variable {RING : Nat}

/-! ### Sealing one frame -/

/-- Bit `k` stands for the buffered frame `rx_next_ + 1 + k`. -/
def sackBitmap (link : Link RING) : UInt16 :=
  (List.range (maxWin - 1)).foldl
    (fun b k =>
      if link.holds (link.rxNext + 1 + UInt8.ofNat k) then b ||| (1 <<< UInt16.ofNat k) else b) 0

/-- Store the counter every `persistStride` frames; `some` is a callback call. -/
def maybePersist (link : Link RING) : Link RING × Option UInt64 :=
  if link.cfg.persistCb ∧ link.cfg.persistStride.toUInt64 ≤ link.txCtr64 - link.lastPersist then
    ({ link with lastPersist := link.txCtr64 }, some link.txCtr64)
  else (link, none)

/-- The key every frame is sealed with, when encryption is on. -/
def sealKey (link : Link RING) : Option Key :=
  if link.cfg.encrypt then link.cfg.key else none

/-- `frame` is `none` where the source returns length 0; `persisted` is the value
handed to the persist callback. -/
structure TxResult (RING : Nat) where
  link : Link RING
  frame : Option Bytes
  persisted : Option UInt64

/-- Payload and flags after the optional compression. -/
def packPayload (heatshrink : Heatshrink) (link : Link RING) (flags : UInt8) (raw : Bytes) :
    UInt8 × Bytes :=
  if 0 < raw.length ∧ link.cfg.compress then
    match compress heatshrink raw (maxPay + 16) with
    | some c => if 0 < c.length ∧ c.length < raw.length then (flags ||| fComp, c) else (flags, raw)
    | none => (flags, raw)
  else (flags, raw)

def frameHeader (link : Link RING) (flags seq : UInt8) (plen : Nat) : Header where
  src := link.cfg.addr
  dst := if link.cfg.peer ≠ 0 then link.cfg.peer else addrBcast
  flags := flags ||| (link.txCtrl &&& ctrlMask)
  seq := seq
  ack := link.rxNext
  epoch := link.myEpoch
  sack := link.sackBitmap
  len := UInt8.ofNat plen
  aux := link.txAux

def encode (heatshrink : Heatshrink) (link : Link RING) (cap : Nat) (flags seq : UInt8)
    (raw : Bytes) : TxResult RING :=
  let packed := link.packPayload heatshrink flags raw
  match link.sealKey with
  | some key =>
      if cap < hdr + ctrW + packed.2.length + link.cfg.tagLen.toNat then ⟨link, none, none⟩
      else
        let h := link.frameHeader (packed.1 ||| fEnc) seq packed.2.length
        let ctr := link.txCtr64 + 1
        let counted := { link with txCtr64 := ctr }.maybePersist
        ⟨counted.1, some (sealFrame key link.cfg.tagLen.toNat h ctr packed.2), counted.2⟩
  | none =>
      if cap < hdr + packed.2.length then ⟨link, none, none⟩
      else
        let h := link.frameHeader packed.1 seq packed.2.length
        ⟨link, some (headerBytes h ++ packed.2), none⟩

/-! ### Filling the window -/

/-- Pop up to `max` bytes from the send ring. -/
def popPayload : Nat → RingBuffer UInt8 RING → Bytes × RingBuffer UInt8 RING
  | 0, ring => ([], ring)
  | max + 1, ring =>
      if 0 < ring.count then
        let popped := ring.pop
        let rest := popPayload max popped.2
        (popped.1 :: rest.1, rest.2)
      else ([], ring)

/-- Cut one frame off the send ring and append it to the window. -/
def frameNext (link : Link RING) : Link RING :=
  let payload := popPayload maxPay link.sRing
  { link with
    sRing := payload.2
    win := link.win ++ [{
      seq := link.nextSeq
      raw := payload.1
      sentAt := 0
      everSent := false
      txThisTurn := false
      acked := false
      fastResend := false }]
    nextSeq := link.nextSeq + 1 }

def canFrame (link : Link RING) : Bool :=
  link.win.length < link.cfg.window.toNat && 0 < link.sRing.count

def fillLoop : Nat → Link RING → Link RING
  | 0, link => link
  | fuel + 1, link => if link.canFrame then fillLoop fuel link.frameNext else link

/-- Each round adds a frame, so `window` rounds are enough. -/
def fillWindow (link : Link RING) : Link RING :=
  link.fillLoop link.cfg.window.toNat

/-! ### One transmission -/

/-- Unacked, not yet sent this turn, and new, flagged or timed out. -/
def sendable (link : Link RING) (now : UInt32) (f : Frame) : Bool :=
  !f.acked && !f.txThisTurn &&
    (!f.everSent || f.fastResend || link.cfg.retransmitMs ≤ now - f.sentAt)

def stampSent (now : UInt32) (f : Frame) : Frame :=
  { f with txThisTurn := true, everSent := true, sentAt := now, fastResend := false }

/-- Another fresh, unacked frame waits besides index `except`. -/
def moreToSend (link : Link RING) (except : Nat) : Bool :=
  link.win.zipIdx.any fun entry =>
    entry.2 ≠ except && (!entry.1.acked && !entry.1.txThisTurn && !entry.1.everSent)

def beginTurn (link : Link RING) : Link RING :=
  { link with
    win := link.win.map fun f => { f with txThisTurn := false }
    ackSentTurn := false }

/-- Counters and marks of a picked frame, before it is encoded. -/
def markSent (link : Link RING) (now : UInt32) (f : Frame) (pick : Nat) : Link RING :=
  { link with
    statRetx := if f.everSent then link.statRetx + 1 else link.statRetx
    statTx := link.statTx + 1
    win := link.win.modify pick (stampSent now) }

/-- Send the picked window frame; the ack rides along. -/
def sendFrame (heatshrink : Heatshrink) (link : Link RING) (cap : Nat) (now : UInt32) (f : Frame)
    (pick : Nat) : TxResult RING :=
  let marked := link.markSent now f pick
  let flags := if marked.moreToSend pick then fData ||| fMore else fData
  let sent := marked.encode heatshrink cap flags f.seq f.raw
  { sent with link := { sent.link with ackPending := false } }

def nextTx (heatshrink : Heatshrink) (link : Link RING) (cap : Nat) (now : UInt32) :
    TxResult RING :=
  let link := link.fillWindow
  match link.win.zipIdx.find? (fun entry => link.sendable now entry.1) with
  | some (f, pick) => link.sendFrame heatshrink cap now f pick
  | none =>
      if !link.ackSentTurn && link.ackPending then
        { link with ackSentTurn := true, ackPending := false }.encode heatshrink cap 0 0 []
      else ⟨link, none, none⟩

def makePoll (heatshrink : Heatshrink) (link : Link RING) (cap : Nat) : TxResult RING :=
  link.encode heatshrink cap 0 0 []

end Link

end LoraSerial.LinkLayer
