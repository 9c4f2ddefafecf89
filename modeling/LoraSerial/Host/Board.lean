import LoraSerial.LinkLayer.Footprint

/-!
Owns one board around its link: the settings kept in flash, key selection, link
configuration, the session key, the commands that change any of these, and crashes
between or inside the flash writes of a command. Does not own the radio, the
handshake frames or the discovery of a peer: their outcomes are arguments of the
commands.

Keys are identified by where they come from; `Firmware.keyOf` gives their bytes.
-/

namespace LoraSerial.Host

open LinkLayer

/-- The built-in fallback key. -/
def linkKey : Key :=
  #v[0x4c, 0x6f, 0x52, 0x61, 0x53, 0x68, 0x65, 0x6c, 0x6c, 0x4b, 0x65, 0x79, 0x21, 0x32, 0x33, 0x34]

/-- The built-in key, the key of the n-th pairing of this board, or the key of its
n-th ephemeral against a peer's public key. -/
inductive KeyId where
  | builtin
  | pairing (number : Nat)
  | session (number : Nat) (peerPub : Bytes)
deriving DecidableEq, Repr

/-- Build constants and the code the board calls. -/
structure Firmware where
  heatshrink : Heatshrink
  keyOf : KeyId → Key
  linkCtrStride : UInt32
  linkTagLen : UInt8
  nodeAddr : UInt8
  peerAddr : UInt8
  featDefault : UInt8

def featComp : UInt8 := 0x01
def featEnc : UInt8 := 0x04
def featFs : UInt8 := 0x20

/-! ### Flash -/

/-- The entries of the Preferences namespace this model uses. -/
structure Flash where
  addr : Option UInt8
  peer : Option UInt8
  feat : Option UInt8
  txctr : Option UInt64
  pkey : Option KeyId
deriving DecidableEq

inductive FlashKey where
  | addr | peer | feat | txctr | pkey
deriving DecidableEq, Repr

inductive FlashWrite where
  | putAddr (value : UInt8)
  | putPeer (value : UInt8)
  | putFeat (value : UInt8)
  | putTxctr (value : UInt64)
  | putPkey (value : KeyId)
  | remove (key : FlashKey)
deriving DecidableEq

def FlashWrite.key : FlashWrite → FlashKey
  | .putAddr _ => .addr
  | .putPeer _ => .peer
  | .putFeat _ => .feat
  | .putTxctr _ => .txctr
  | .putPkey _ => .pkey
  | .remove key => key

def Flash.remove (flash : Flash) : FlashKey → Flash
  | .addr => { flash with addr := none }
  | .peer => { flash with peer := none }
  | .feat => { flash with feat := none }
  | .txctr => { flash with txctr := none }
  | .pkey => { flash with pkey := none }

def Flash.write (flash : Flash) : FlashWrite → Flash
  | .putAddr value => { flash with addr := some value }
  | .putPeer value => { flash with peer := some value }
  | .putFeat value => { flash with feat := some value }
  | .putTxctr value => { flash with txctr := some value }
  | .putPkey value => { flash with pkey := some value }
  | .remove key => flash.remove key

def Flash.writeAll (flash : Flash) (writes : List FlashWrite) : Flash :=
  writes.foldl Flash.write flash

/-- `prefs.getULong64("txctr", 0)` -/
def Flash.savedCtr (flash : Flash) : UInt64 :=
  flash.txctr.getD 0

/-! ### RAM -/

/-- The settings of `cfg` that reach the link. -/
structure Settings where
  addr : UInt8
  peer : UInt8
  feat : UInt8
deriving DecidableEq

def Settings.has (cfg : Settings) (feature : UInt8) : Bool :=
  hasFlag cfg.feat feature

def Settings.setFeature (cfg : Settings) (feature : UInt8) (on : Bool) : Settings :=
  { cfg with feat := if on then cfg.feat ||| feature else cfg.feat &&& ~~~feature }

structure Ram (RING : Nat) where
  cfg : Settings
  window : UInt8
  retransmitMs : UInt32
  staticKey : KeyId
  linkKey : KeyId
  sessionActive : Bool
  hsStarted : Bool
  hsNumber : Nat
  link : Link RING

/-- A board; no RAM means it is off. `pairings` and `handshakes` count the keys it
has generated in its life. -/
structure Board (RING : Nat) where
  flash : Flash
  ram : Option (Ram RING)
  pairings : Nat
  handshakes : Nat

variable {RING : Nat}

/-- The low byte of one random word, with 0 replaced by 1. -/
def drawEpoch (random : UInt32) : UInt8 :=
  let epoch := (random &&& 0xFF).toUInt8
  if epoch = 0 then 1 else epoch

namespace Ram

/-- The link as its functions see it: the key bytes are read live. -/
def liveLink (fw : Firmware) (ram : Ram RING) : Link RING :=
  { ram.link with cfg := { ram.link.cfg with key := some (fw.keyOf ram.linkKey) } }

def linkConfig (fw : Firmware) (ram : Ram RING) (startCtr : UInt64) (random : UInt32) :
    Config where
  addr := ram.cfg.addr
  peer := ram.cfg.peer
  window := ram.window
  retransmitMs := ram.retransmitMs
  compress := ram.cfg.has featComp
  encrypt := ram.cfg.has featEnc
  key := some (fw.keyOf ram.linkKey)
  epoch := drawEpoch random
  tagLen := fw.linkTagLen
  startCtr := startCtr
  persistStride := fw.linkCtrStride
  persistCb := true

/-- The counter `ApplyLinkConfig` resumes at. -/
def resumeCtr (fw : Firmware) (flash : Flash) : UInt64 :=
  flash.savedCtr + fw.linkCtrStride.toUInt64

/-- `ApplyLinkConfig` on the flash it reads; its one write is `resumeCtr`. -/
def applyLinkConfig (fw : Firmware) (ram : Ram RING) (flash : Flash) (random : UInt32) :
    Ram RING :=
  { ram with link := ram.link.init (ram.linkConfig fw (resumeCtr fw flash) random) }

/-- Back to the static key; the next handshake takes a new ephemeral. -/
def sessionReset (ram : Ram RING) : Ram RING :=
  { ram with linkKey := ram.staticKey, sessionActive := false, hsStarted := false }

def loadSettings (fw : Firmware) (ram : Ram RING) (flash : Flash) : Ram RING :=
  let key := flash.pkey.getD .builtin
  { ram with
    cfg :=
      { addr := flash.addr.getD fw.nodeAddr
        peer := flash.peer.getD fw.peerAddr
        feat := flash.feat.getD fw.featDefault }
    staticKey := key
    linkKey := key }

/-- Zeroed static storage. -/
def zeroed (fw : Firmware) (window : UInt8) (retransmitMs : UInt32) : Ram RING where
  cfg := { addr := fw.nodeAddr, peer := fw.peerAddr, feat := fw.featDefault }
  window := window
  retransmitMs := retransmitMs
  staticKey := .builtin
  linkKey := .builtin
  sessionActive := false
  hsStarted := false
  hsNumber := 0
  link := Link.zeroed Config.default

/-- The handshake runs only with forward secrecy and encryption on. -/
def handshakes (ram : Ram RING) : Bool :=
  ram.cfg.has featFs && ram.cfg.has featEnc

/-- Take ephemeral `number` unless one is in use. -/
def ensureStarted (ram : Ram RING) (number : Nat) : Ram RING :=
  if ram.hsStarted then ram else { ram with hsStarted := true, hsNumber := number }

def installSessionKey (ram : Ram RING) (peerPub : Bytes) : Ram RING :=
  { ram with linkKey := .session ram.hsNumber peerPub, sessionActive := true }

end Ram

/-! ### Commands -/

/-- What the firmware does to a running board. `random` is the word drawn for the
epoch. -/
inductive Command where
  | atAddr (value : UInt8) (random : UInt32)
  | atPeer (value : UInt8) (random : UInt32)
  | atEnc (on : Bool) (random : UInt32)
  | atComp (on : Bool) (random : UInt32)
  | rendezvous (random : UInt32)
  | atFs (on : Bool)
  | atSave
  | atTrain (random : UInt32)
  | atPair (addr peer : UInt8) (random : UInt32)
  | atFactoryReset (order : List FlashKey) (random : UInt32)
  | hostReconnect
  | peerReset
  | newSession
  | driveInitiator
  | handshakeInit (peerPub : Bytes)
  | handshakeResp (peerPub : Bytes)
  | applyTiming (window : UInt8) (retransmitMs : UInt32)
  | write (d : Bytes)
  | read (max : Nat)
  | beginTurn
  | setCtrlTx (bits : UInt8)
  | setAuxTx (aux : UInt8)
  | nextTx (cap : Nat) (now : UInt32)
  | makePoll (cap : Nat)
  | onRx (input : Bytes)

/-- One command: the RAM after it, its flash writes in order, and the frame it
handed to the radio. -/
structure Effect (RING : Nat) where
  ram : Ram RING
  writes : List FlashWrite
  frame : Option Bytes

namespace Ram

variable (fw : Firmware) (board : Board RING) (ram : Ram RING)

/-- `ApplyLinkConfig` alone. -/
def reconfigure (random : UInt32) : Effect RING where
  ram := ram.applyLinkConfig fw board.flash random
  writes := [.putTxctr (resumeCtr fw board.flash)]
  frame := none

/-- A command that writes nothing and sends nothing. -/
def quiet : Effect RING where
  ram := ram
  writes := []
  frame := none

/-- The link after a call that may seal a frame and save the counter. -/
def transmitted (sent : Link.TxResult RING) : Effect RING where
  ram := { ram with link := sent.link }
  writes := (sent.persisted.map FlashWrite.putTxctr).toList
  frame := sent.frame

/-- The successful end of `RunPairing`: a new static key, encryption on. -/
def train (random : UInt32) : Effect RING :=
  let key := KeyId.pairing board.pairings
  let adopted := { ram with staticKey := key, cfg := ram.cfg.setFeature featEnc true }
  { ram := (adopted.applyLinkConfig fw board.flash random).sessionReset
    writes := [.putPkey key, .putTxctr (resumeCtr fw board.flash)]
    frame := none }

def withCfg (cfg : Settings) : Ram RING :=
  { ram with cfg := cfg }

def withLink (link : Link RING) : Ram RING :=
  { ram with link := link }

/-- All keys, in the order the directory listing gives them. -/
def clearWrites (order : List FlashKey) : List FlashWrite :=
  ((order ++ [.addr, .peer, .feat, .txctr, .pkey] : List FlashKey)).map FlashWrite.remove

def command : Command → Effect RING
  | .atAddr value random => (ram.withCfg { ram.cfg with addr := value }).reconfigure fw board random
  | .atPeer value random => (ram.withCfg { ram.cfg with peer := value }).reconfigure fw board random
  | .atEnc on random => (ram.withCfg (ram.cfg.setFeature featEnc on)).reconfigure fw board random
  | .atComp on random => (ram.withCfg (ram.cfg.setFeature featComp on)).reconfigure fw board random
  | .rendezvous random => ram.reconfigure fw board random
  | .atFs on => (ram.withCfg (ram.cfg.setFeature featFs on)).sessionReset.quiet
  | .atSave =>
      { ram := ram
        writes := [.putAddr ram.cfg.addr, .putPeer ram.cfg.peer, .putFeat ram.cfg.feat]
        frame := none }
  | .atTrain random => ram.train fw board random
  | .atPair addr peer random =>
      let trained := (ram.withCfg { ram.cfg with addr := addr, peer := peer }).train fw board random
      { trained with writes := trained.writes ++ [.putAddr addr, .putPeer peer] }
  | .atFactoryReset order random =>
      let cleared := board.flash.writeAll (clearWrites order)
      { ram := (ram.loadSettings fw cleared).applyLinkConfig fw cleared random
        writes := clearWrites order ++ [.putTxctr (resumeCtr fw cleared)]
        frame := none }
  | .hostReconnect => (ram.withLink ram.link.newSession).sessionReset.quiet
  | .peerReset => ram.sessionReset.quiet
  | .newSession => (ram.withLink ram.link.newSession).quiet
  | .driveInitiator =>
      if ram.handshakes && !ram.sessionActive then (ram.ensureStarted board.handshakes).quiet
      else ram.quiet
  | .handshakeInit peerPub =>
      if ram.handshakes then
        ((ram.ensureStarted board.handshakes).installSessionKey peerPub).quiet
      else ram.quiet
  | .handshakeResp peerPub =>
      if ram.handshakes && ram.hsStarted && !ram.sessionActive then
        (ram.installSessionKey peerPub).quiet
      else ram.quiet
  | .applyTiming window retransmitMs =>
      { ram with
        window := window
        retransmitMs := retransmitMs
        link := ram.link.setTiming window retransmitMs }.quiet
  | .write d => (ram.withLink (ram.link.write d).2).quiet
  | .read max => (ram.withLink (ram.link.read max).2).quiet
  | .beginTurn => (ram.withLink ram.link.beginTurn).quiet
  | .setCtrlTx bits => (ram.withLink (ram.link.setCtrlTx bits)).quiet
  | .setAuxTx aux => (ram.withLink (ram.link.setAuxTx aux)).quiet
  | .nextTx cap now => ram.transmitted ((ram.liveLink fw).nextTx fw.heatshrink cap now)
  | .makePoll cap => ram.transmitted ((ram.liveLink fw).makePoll fw.heatshrink cap)
  | .onRx input => (ram.withLink ((ram.liveLink fw).onRx fw.heatshrink input).link).quiet

/-- `Setup` up to the first turn: settings, link, static key. -/
def boot (window : UInt8) (retransmitMs : UInt32) (random : UInt32) : Effect RING where
  ram := (((zeroed fw window retransmitMs).loadSettings fw board.flash).applyLinkConfig fw
    board.flash random).sessionReset
  writes := [.putTxctr (resumeCtr fw board.flash)]
  frame := none

end Ram

/-! ### Events -/

/-- What can happen to a board: it boots, a command runs to its end, power goes
between commands, or power goes inside a boot or a command after `done` flash
writes, and `torn` says whether the next write had removed its key already. -/
inductive Event where
  | boot (window : UInt8) (retransmitMs random : UInt32)
  | command (c : Command)
  | crash
  | crashInBoot (window : UInt8) (retransmitMs random : UInt32) (done : Nat) (torn : Bool)
  | crashIn (c : Command) (done : Nat) (torn : Bool)

namespace Board

/-- The writes that reached the flash before power went. -/
def interrupted (writes : List FlashWrite) (done : Nat) (torn : Bool) : List FlashWrite :=
  writes.take done ++
    if torn then (writes[done]?.map fun write => FlashWrite.remove write.key).toList else []

/-- The flash writes of one event. -/
def writes (fw : Firmware) (board : Board RING) : Event → List FlashWrite
  | .boot window retransmitMs random => (Ram.boot fw board window retransmitMs random).writes
  | .command c =>
      match board.ram with
      | some ram => (ram.command fw board c).writes
      | none => []
  | .crash => []
  | .crashInBoot window retransmitMs random done torn =>
      interrupted (Ram.boot fw board window retransmitMs random).writes done torn
  | .crashIn c done torn =>
      match board.ram with
      | some ram => interrupted (ram.command fw board c).writes done torn
      | none => []

/-- The RAM after one event. A command on a board that is off does nothing. -/
def nextRam (fw : Firmware) (board : Board RING) : Event → Option (Ram RING)
  | .boot window retransmitMs random => some (Ram.boot fw board window retransmitMs random).ram
  | .command c => board.ram.map fun ram => (ram.command fw board c).ram
  | .crash | .crashInBoot .. | .crashIn .. => none

/-- One event. A crash inside a command loses its frame, but the key it generated
counts as generated. -/
def step (fw : Firmware) (board : Board RING) (event : Event) : Board RING where
  flash := board.flash.writeAll (board.writes fw event)
  ram := board.nextRam fw event
  pairings := board.pairings + 1
  handshakes := board.handshakes + 1

end Board

end LoraSerial.Host
