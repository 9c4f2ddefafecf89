import LoraSerial.LinkLayer.Receive

/-!
Owns the public calls of the link layer as one step function, and runs of calls.
-/

namespace LoraSerial.LinkLayer

/-- One public call. -/
inductive Op where
  | init (c : Config)
  | newSession
  | setTiming (window : UInt8) (retransmitMs : UInt32)
  | write (d : Bytes)
  | read (max : Nat)
  | takeGotData
  | takePeerReset
  | takeValidRx
  | setCtrlTx (bits : UInt8)
  | setAuxTx (aux : UInt8)
  | beginTurn
  | nextTx (cap : Nat) (now : UInt32)
  | makePoll (cap : Nat)
  | onRx (input : Bytes)

namespace Link

variable {RING : Nat}

def apply (heatshrink : Heatshrink) (link : Link RING) : Op → Link RING
  | .init c => link.init c
  | .newSession => link.newSession
  | .setTiming window retransmitMs => link.setTiming window retransmitMs
  | .write d => (link.write d).2
  | .read max => (link.read max).2
  | .takeGotData => link.takeGotData.2
  | .takePeerReset => link.takePeerReset.2
  | .takeValidRx => link.takeValidRx.2
  | .setCtrlTx bits => link.setCtrlTx bits
  | .setAuxTx aux => link.setAuxTx aux
  | .beginTurn => link.beginTurn
  | .nextTx cap now => (link.nextTx heatshrink cap now).link
  | .makePoll cap => (link.makePoll heatshrink cap).link
  | .onRx input => (link.onRx heatshrink input).link

def run (heatshrink : Heatshrink) (link : Link RING) (ops : List Op) : Link RING :=
  ops.foldl (apply heatshrink) link

end Link

end LoraSerial.LinkLayer
