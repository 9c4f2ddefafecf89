import LoraSerial.LinkLayer.Transmit

/-!
Owns the receiving side: header parsing, the address filter, epoch tracking,
authentication with the replay window, ack and SACK processing, and buffering and
delivery of data. Every return statement of `OnRx` is a constructor of `RxExit`.
-/

namespace LoraSerial.LinkLayer

open Library Library.WordBytes

def parseHeader : Bytes → Option (Header × Bytes)
  | src :: dst :: flags :: seq :: ack :: epoch :: sackHi :: sackLo :: len :: aux :: body =>
      some
        ({ src, dst, flags, seq, ack, epoch
           sack := (sackHi.toUInt16 <<< 8) ||| sackLo.toUInt16
           len, aux }, body)
  | _ => none

/-- What the AEAD reads of a sealed frame. -/
structure Sealed where
  ctr : UInt64
  ad : Bytes
  ct : Bytes
  tag : Bytes

/-- Cut a sealed frame; `none` is a malformed length. -/
def splitSealed (tagLen : Nat) (input : Bytes) (h : Header) (body : Bytes) : Option Sealed :=
  if body.length < ctrW then none
  else
    let rest := body.drop ctrW
    if rest.length < h.len.toNat + tagLen then none
    else some
      { ctr := loadBe (body.take ctrW)
        ad := input.take (hdr + ctrW)
        ct := rest.take h.len.toNat
        tag := (rest.drop h.len.toNat).take tagLen }

/-- Where `OnRx` returned. -/
inductive RxExit where
  | tooShort
  | filtered
  | plaintext
  | malformed
  | noKey
  | badTag
  | replayed
  | undecodable
  | accepted
deriving DecidableEq, Repr

/-- Decompress if flagged, else copy if it fits. -/
def decodePayload (heatshrink : Heatshrink) (flags : UInt8) (buf : Bytes) : Option Bytes :=
  if hasFlag flags fComp then decompress heatshrink buf decMax
  else if decMax < buf.length then none
  else some buf

/-! ### Send-window marking -/

def markAcked (f : Frame) : Frame :=
  { f with acked := true }

/-- Mark the first frame with this sequence number. -/
def markSeq (seq : UInt8) : List Frame → List Frame
  | [] => []
  | f :: rest => if f.seq = seq then markAcked f :: rest else f :: markSeq seq rest

def sackBit (sack : UInt16) (k : Nat) : Bool :=
  sack &&& (1 <<< UInt16.ofNat k) != 0

def markSack (ack : UInt8) (sack : UInt16) (win : List Frame) : List Frame :=
  (List.range (maxWin - 1)).foldl
    (fun win k => if sackBit sack k then markSeq (ack + 1 + UInt8.ofNat k) win else win) win

/-- Flag the sent, unacked frames before an acked one, and say whether any frame
is acked. -/
def flagSkipped : List Frame → List Frame × Bool
  | [] => ([], false)
  | f :: rest =>
      let later := flagSkipped rest
      if f.acked then (f :: later.1, true)
      else if later.2 && f.everSent then ({ f with fastResend := true } :: later.1, later.2)
      else (f :: later.1, later.2)

namespace Link

variable {RING : Nat}

/-! ### Filter and epoch -/

/-- The frame is not for this link, or not from its peer. -/
def filters (link : Link RING) (h : Header) : Bool :=
  (h.dst != link.cfg.addr && h.dst != addrBcast) || (link.cfg.peer != 0 && h.src != link.cfg.peer)

/-- The peer restarted: drop both windows and the replay window. -/
def resync (link : Link RING) (epoch : UInt8) : Link RING :=
  { link with
    rxNext := 0
    nextSeq := 0
    baseSeq := 0
    win := []
    ackPending := false
    rx := clearReceived link.rx
    rxCtrInit := false
    rxAux := 0
    peerEpoch := epoch
    peerReset := true }

def trackEpoch (link : Link RING) (epoch : UInt8) : Link RING :=
  if link.peerEpoch = 0 then { link with peerEpoch := epoch }
  else if epoch ≠ link.peerEpoch then link.resync epoch
  else link

/-! ### Authentication -/

def replayOk (link : Link RING) (ctr : UInt64) : Bool × Link RING :=
  if !link.rxCtrInit then
    (true, { link with rxCtrInit := true, rxCtrMax := ctr, rxWindow := 1 })
  else if link.rxCtrMax < ctr then
    let d := ctr - link.rxCtrMax
    let shifted := if 64 ≤ d then 0 else link.rxWindow <<< d
    (true, { link with rxWindow := shifted ||| 1, rxCtrMax := ctr })
  else
    let d := link.rxCtrMax - ctr
    if 64 ≤ d then (false, link)
    else
      let bit := (1 : UInt64) <<< d
      if link.rxWindow &&& bit ≠ 0 then (false, link)
      else (true, { link with rxWindow := link.rxWindow ||| bit })

def aeadOpen (heatshrink : Heatshrink) (link : Link RING) (h : Header) (s : Sealed) :
    Link RING × Except RxExit Bytes :=
  match link.cfg.key with
  | none => (link, .error .noKey)
  | some key =>
      match ascon128Decrypt key (buildNonce h.src h.epoch s.ctr) s.ad s.ct s.tag with
      | none => (link, .error .badTag)
      | some buf =>
          let checked := link.replayOk s.ctr
          if checked.1 then
            match decodePayload heatshrink h.flags buf with
            | none => (checked.2, .error .undecodable)
            | some payload => (checked.2, .ok payload)
          else (checked.2, .error .replayed)

/-- Everything between epoch tracking and trust. A plaintext payload that does
not decode is `ok none`: its header is still used. -/
def authenticate (heatshrink : Heatshrink) (link : Link RING) (input : Bytes) (h : Header)
    (body : Bytes) : Link RING × Except RxExit (Option Bytes) :=
  if link.cfg.encrypt && !hasFlag h.flags fEnc then (link, .error .plaintext)
  else if hasFlag h.flags fEnc then
    match splitSealed link.cfg.tagLen.toNat input h body with
    | none => (link, .error .malformed)
    | some s =>
        let opened := link.aeadOpen heatshrink h s
        match opened.2 with
        | .error exit => (opened.1, .error exit)
        | .ok payload => (opened.1, .ok (some payload))
  else
    let plen := if body.length < h.len.toNat then UInt8.ofNat body.length else h.len
    (link, .ok (decodePayload heatshrink h.flags (body.take plen.toNat)))

/-! ### Acks -/

def slideWindow (link : Link RING) : Link RING :=
  { link with
    win := link.win.dropWhile Frame.acked
    baseSeq := link.baseSeq + UInt8.ofNat (link.win.takeWhile Frame.acked).length }

def markCumulative (link : Link RING) (ack : UInt8) : Link RING :=
  let cum := (ack - link.baseSeq).toNat
  if 0 < cum ∧ cum ≤ link.win.length then
    { link with win := (link.win.take cum).map markAcked ++ link.win.drop cum }
  else link

def ackProcess (link : Link RING) (ack : UInt8) (sack : UInt16) : Link RING :=
  let marked := link.markCumulative ack
  let marked := { marked with win := markSack ack sack marked.win }
  let slid := marked.slideWindow
  { slid with win := (flagSkipped slid.win).1 }

/-! ### Data -/

/-- Buffer a frame of the receive window unless it is already there. -/
def storeFrame (link : Link RING) (seq : UInt8) (decoded : Option Bytes) : Link RING :=
  if link.holds seq then link
  else
    match decoded with
    | some buf =>
        { link with
          rx := Function.update link.rx (slotOf seq) { buf := buf, seq := seq, received := true } }
    | none => link

def receiveData (link : Link RING) (seq : UInt8) (decoded : Option Bytes) : Link RING :=
  if (seq - link.rxNext).toNat < maxWin then
    { (link.storeFrame seq decoded).drainInOrder with ackPending := true }
  else { link with ackPending := true }

/-- The frame is trusted: control bits, acks, data. -/
def accept (link : Link RING) (h : Header) (decoded : Option Bytes) : Link RING :=
  let trusted := { link with
    rxCtrl := h.flags &&& ctrlMask
    rxAux := h.aux
    gotValidRx := true }
  let acked := trusted.ackProcess h.ack h.sack
  if hasFlag h.flags fData then acked.receiveData h.seq decoded else acked

/-! ### OnRx -/

structure RxResult (RING : Nat) where
  link : Link RING
  exit : RxExit
  burstEnd : Bool

def onRx (heatshrink : Heatshrink) (link : Link RING) (input : Bytes) : RxResult RING :=
  match parseHeader input with
  | none => ⟨link, .tooShort, false⟩
  | some (h, body) =>
      if link.filters h then ⟨link, .filtered, false⟩
      else
        let opened := (link.trackEpoch h.epoch).authenticate heatshrink input h body
        match opened.2 with
        | .error exit => ⟨opened.1, exit, false⟩
        | .ok decoded => ⟨opened.1.accept h decoded, .accepted, !hasFlag h.flags fMore⟩

end Link

end LoraSerial.LinkLayer
