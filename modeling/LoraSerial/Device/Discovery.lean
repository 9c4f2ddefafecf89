import LoraSerial.Device.Reception
import LoraSerial.Device.Settings
import Mathlib.Data.Fintype.Basic

/-!
Owns the election of the roles: the beacons of any number of boards on a channel that loses
frames, the proximity pairing around it, what a board stores of the result, and reboots.
Proves that boards that elected each other hold opposite roles and addresses, and that a
beacon which reaches a turn loop is answered until the channel loses it. Does not own the key
that the pairing agrees on.

The host is served while a board elects, so `AT&W` and `AT+TRAIN` run then too. Left out are
`AT&F`, `AT+ADDR` and `AT+PEER`, whose addresses come from no election, and an `AT+PAIR` during
an election. The handshake's wait in `SessionDriveInitiator` drops a beacon unanswered; it is no
step here.
-/

namespace LoraSerial.Device

open LinkLayer Host Library.Run

/-- A factory MAC. -/
abbrev Mac : Type :=
  Vector UInt8 6

def discConfirm : Nat := 6

/-- `memcmp` orders the bytes from the first one on. -/
def electInitiator (myMac peerMac : Bytes) : Bool :=
  decide (myMac < peerMac)

/-- The frame of `SendDiscBeacon`. -/
def discBeacon (mac : Mac) : Bytes :=
  discMagic ++ mac.toList

/-- `storing addrStored` is `PersistRole` before a write: the key is stored already. -/
inductive DiscoveryStage where
  | discovering
  | confirming (left : Nat)
  | training
  | storing (addrStored : Bool)
  | running
deriving DecidableEq, Repr

/-- One board. `cfg` is `cfg.addr` and `cfg.peer`; `paired`, `addr` and `peer` are in flash.
`electedBy` and `savedBy` record the MAC that the role in `cfg` and the stored one come from;
no function reads them. -/
structure Elector where
  stage : DiscoveryStage
  pairing : Bool
  cfg : Settings
  initiator : Bool
  paired : Bool
  addr : Option UInt8
  peer : Option UInt8
  queue : List Bytes
  electedBy : Option Bytes
  savedBy : Option Bytes

namespace Elector

/-- The RX ring takes the frame, or drops it when it is full. -/
def hear (board : Elector) (frame : Bytes) : Elector :=
  if board.queue.length < rxRingSlots - 1 then { board with queue := board.queue ++ [frame] }
  else board

/-- The role and the addresses for the MAC of a beacon. -/
def elect (myMac : Mac) (board : Elector) (peerMac : Bytes) : Elector :=
  let isInitiator := electInitiator myMac.toList peerMac
  { board with
    stage := .confirming discConfirm
    initiator := isInitiator
    cfg := assignAddrs isInitiator board.cfg
    electedBy := some peerMac }

/-- The confirming beacons are sent. -/
def confirmed (board : Elector) : Elector :=
  { board with stage := if board.pairing then .training else .running }

/-- `ProximityPair`. -/
def proximityPair (board : Elector) : Elector :=
  { board with stage := .discovering, pairing := true }

/-- What follows `RunPairing`. -/
def train (board : Elector) (ok : Bool) : Elector :=
  if ok then { board with stage := .storing false, paired := true }
  else { board with stage := .running, pairing := false }

/-- `AT+TRAIN` stores a key and no role, and takes frames out of the RX ring. -/
def atTrain (board : Elector) (ok : Bool) (taken : Nat) : Elector :=
  { board with
    paired := board.paired || ok
    queue := board.queue.drop taken }

/-- `AT&W`, as far as the role. -/
def saveSettings (board : Elector) : Elector :=
  { board with
    addr := some board.cfg.addr
    peer := some board.cfg.peer
    savedBy := board.electedBy }

/-- One write of `PersistRole`. -/
def persistRole (board : Elector) (addrStored : Bool) : Elector :=
  if addrStored then
    { board with
      stage := .running
      pairing := false
      peer := some board.cfg.peer
      savedBy := board.electedBy }
  else { board with stage := .storing true, addr := some board.cfg.addr }

/-- `Setup` with the stored settings. -/
def boot (build : Build) (proxPair : Bool) (board : Elector) : Elector :=
  let cfg : Settings :=
    { board.cfg with
      addr := board.addr.getD build.nodeAddr
      peer := board.peer.getD build.peerAddr }
  { board with
    stage := if proxPair && board.paired then .running else .discovering
    pairing := proxPair && !board.paired
    cfg := cfg
    initiator := Device.recomputeRole cfg
    queue := []
    electedBy := board.savedBy }

/-- A board with nothing stored. -/
def blank (build : Build) (proxPair : Bool) : Elector :=
  boot build proxPair
    { stage := .discovering
      pairing := false
      cfg := { addr := 0, peer := 0, feat := 0 }
      initiator := false
      paired := false
      addr := none
      peer := none
      queue := []
      electedBy := none
      savedBy := none }

end Elector

/-- `reach` says who hears a frame, its sender perhaps included. `beacon` is a beacon of
`DiscoverRole`; `transmit` is any frame of a turn, of the pairing or of `AT+TRAIN`. -/
inductive DiscoveryAction (Name : Type) where
  | beacon (name : Name) (reach : Name → Bool)
  | take (name : Name) (reach : Name → Bool)
  | transmit (name : Name) (frame : Bytes) (other : discHandleRx true frame = false)
      (reach : Name → Bool)
  | train (name : Name) (ok : Bool)
  | persistRole (name : Name)
  | proximityPair (name : Name)
  | atTrain (name : Name) (ok : Bool) (taken : Nat)
  | saveSettings (name : Name)
  | reboot (name : Name)

/-- The boards by name, and what they are built with. -/
structure Site (Name : Type) where
  build : Build
  proxPair : Bool
  mac : Name → Mac

namespace Site

variable {Name : Type}

def broadcast (boards : Name → Elector) (frame : Bytes) (reach : Name → Bool) : Name → Elector :=
  fun name => if reach name then (boards name).hear frame else boards name

variable [DecidableEq Name]

def set (boards : Name → Elector) (name : Name) (board : Elector) : Name → Elector :=
  fun other => if other = name then board else boards other

/-- The board takes a frame out of its RX ring. -/
def take (site : Site Name) (boards : Name → Elector) (name : Name) (reach : Name → Bool)
    (rx : Bytes) (rest : List Bytes) : Name → Elector :=
  let board := { boards name with queue := rest }
  match board.stage with
  | .discovering =>
      if discHandleRx true rx = true ∧ rx.drop 4 ≠ (site.mac name).toList then
        set boards name (board.elect (site.mac name) (rx.drop 4))
      else set boards name board
  | .training => set boards name board
  | .running =>
      if discHandleRx true rx then
        broadcast (set boards name board) (discBeacon (site.mac name)) reach
      else set boards name board
  | .confirming _ | .storing _ => boards

def step (site : Site Name) (boards : Name → Elector) : DiscoveryAction Name → Name → Elector
  | .beacon name reach =>
      match (boards name).stage with
      | .discovering => broadcast boards (discBeacon (site.mac name)) reach
      | .confirming 0 => set boards name (boards name).confirmed
      | .confirming (left + 1) =>
          broadcast (set boards name { boards name with stage := .confirming left })
            (discBeacon (site.mac name)) reach
      | .training | .storing _ | .running => boards
  | .take name reach =>
      match (boards name).queue with
      | [] => boards
      | rx :: rest => site.take boards name reach rx rest
  | .transmit name frame _ reach =>
      match (boards name).stage with
      | .discovering | .confirming _ | .training | .running => broadcast boards frame reach
      | .storing _ => boards
  | .train name ok =>
      match (boards name).stage with
      | .training => set boards name ((boards name).train ok)
      | .discovering | .confirming _ | .storing _ | .running => boards
  | .persistRole name =>
      match (boards name).stage with
      | .storing addrStored => set boards name ((boards name).persistRole addrStored)
      | .discovering | .confirming _ | .training | .running => boards
  | .proximityPair name =>
      match (boards name).stage with
      | .running => set boards name (boards name).proximityPair
      | .discovering | .confirming _ | .training | .storing _ => boards
  | .atTrain name ok taken =>
      match (boards name).stage with
      | .discovering | .confirming _ | .running =>
          set boards name ((boards name).atTrain ok taken)
      | .training | .storing _ => boards
  | .saveSettings name =>
      match (boards name).stage with
      | .discovering | .confirming _ | .running => set boards name (boards name).saveSettings
      | .training | .storing _ => boards
  | .reboot name => set boards name ((boards name).boot site.build site.proxPair)

def run (site : Site Name) (boards : Name → Elector) (actions : List (DiscoveryAction Name)) :
    Name → Elector :=
  actions.foldl site.step boards

/-- A board with a key that loses power has stored a role that it elected, and is not storing
one. -/
def StoresWhole (boards : Name → Elector) : DiscoveryAction Name → Prop
  | .reboot name => (boards name).paired = true → (boards name).savedBy ≠ none ∧
      (boards name).stage ≠ .storing false ∧ (boards name).stage ≠ .storing true
  | _ => True

instance (boards : Name → Elector) :
    (action : DiscoveryAction Name) → Decidable (StoresWhole boards action)
  | .reboot name =>
      inferInstanceAs (Decidable ((boards name).paired = true → (boards name).savedBy ≠ none ∧
        (boards name).stage ≠ .storing false ∧ (boards name).stage ≠ .storing true))
  | .beacon _ _ | .take _ _ | .transmit _ _ _ _ | .train _ _ | .persistRole _
  | .proximityPair _ | .atTrain _ _ _ | .saveSettings _ => inferInstanceAs (Decidable True)

end Site

/-! ### What one board keeps -/

/-- The addresses that go with a role. -/
structure Addressed (isInitiator : Bool) (addr peer : UInt8) : Prop where
  addr : addr = if isInitiator then 1 else 2
  peer : peer = if isInitiator then 2 else 1

/-- The role follows from the MACs, and the addresses from the role. -/
structure Elector.Roled (board : Elector) (myMac peerMac : Bytes) : Prop where
  role : board.initiator = electInitiator myMac peerMac
  addressed : Addressed board.initiator board.cfg.addr board.cfg.peer

theorem recomputeRole_addressed {isInitiator : Bool} {cfg : Settings}
    (addressed : Addressed isInitiator cfg.addr cfg.peer) :
    Device.recomputeRole cfg = isInitiator := by
  rw [Device.recomputeRole, addressed.addr, addressed.peer]
  cases isInitiator <;> decide

namespace Site

variable {Name : Type} {site : Site Name} {name : Name} {board : Elector}

/-- The MAC of another board than this one. -/
def Foreign (site : Site Name) (name : Name) (peerMac : Bytes) : Prop :=
  peerMac ≠ (site.mac name).toList ∧ ∃ other, peerMac = (site.mac other).toList

/-- Every beacon in the RX ring is some board's. A board that has elected has the role and the
addresses for the MAC of another board, until its next election. So has what it has stored of
an election, except between the writes, when the key is stored. -/
structure Sound (site : Site Name) (name : Name) (board : Elector) : Prop where
  heard : ∀ rx ∈ board.queue, discHandleRx true rx = true →
    ∃ other, rx = discBeacon (site.mac other)
  settled : board.stage ≠ .discovering → board.electedBy ≠ none
  elected : ∀ peerMac, board.electedBy = some peerMac →
    site.Foreign name peerMac ∧ board.Roled (site.mac name).toList peerMac
  keyed : ∀ addrStored, board.stage = .storing addrStored → board.paired = true
  addrStored : board.stage = .storing true → board.addr = some board.cfg.addr
  stored : (∀ addrStored, board.stage ≠ .storing addrStored) → ∀ peerMac,
    board.savedBy = some peerMac → site.Foreign name peerMac ∧
      ∃ addr peer, board.addr = some addr ∧ board.peer = some peer ∧
        Addressed (electInitiator (site.mac name).toList peerMac) addr peer

namespace Sound

/-- The election stands while the role, the addresses and its record do. -/
theorem election (sound : site.Sound name board)
    {later : Elector} (role : later.initiator = board.initiator) (cfg : later.cfg = board.cfg)
    (electedBy : later.electedBy = board.electedBy) (peerMac : Bytes)
    (elected : later.electedBy = some peerMac) :
    site.Foreign name peerMac ∧ later.Roled (site.mac name).toList peerMac := by
  rcases sound.elected peerMac (electedBy.symm.trans elected) with ⟨foreign, elects, addressed⟩
  refine ⟨foreign, role.trans elects, ?_⟩
  rw [role, cfg]
  exact addressed

theorem hear (sound : site.Sound name board) {frame : Bytes}
    (known : discHandleRx true frame = true → ∃ other, frame = discBeacon (site.mac other)) :
    site.Sound name (board.hear frame) := by
  rw [Elector.hear]
  split
  · exact {
      heard := by
        intro rx member
        rcases List.mem_append.mp member with old | new
        · exact sound.heard rx old
        · rw [List.mem_singleton.mp new]
          exact known
      settled := sound.settled
      elected := sound.election rfl rfl rfl
      keyed := sound.keyed
      addrStored := sound.addrStored
      stored := sound.stored }
  · exact sound

theorem taken (sound : site.Sound name board) {rx : Bytes} {rest : List Bytes}
    (queue : board.queue = rx :: rest) : site.Sound name { board with queue := rest } where
  heard later member := sound.heard later (queue ▸ List.mem_cons_of_mem rx member)
  settled := sound.settled
  elected := sound.election rfl rfl rfl
  keyed := sound.keyed
  addrStored := sound.addrStored
  stored := sound.stored

theorem elect (sound : site.Sound name board) {peerMac : Bytes}
    (foreign : site.Foreign name peerMac) (electing : board.stage = .discovering) :
    site.Sound name (board.elect (site.mac name) peerMac) where
  heard := sound.heard
  settled := nofun
  elected _ heard := by
    cases heard
    exact ⟨foreign, rfl, ⟨rfl, rfl⟩⟩
  keyed := nofun
  addrStored := nofun
  stored _ := sound.stored fun addrStored storing => by
    rw [electing] at storing
    cases storing

/-- A change of stage between elections. -/
theorem stay (sound : site.Sound name board) {stage : DiscoveryStage} (pairing : Bool)
    (settled : board.stage ≠ .discovering) (notStoring : ∀ addrStored, stage ≠ .storing addrStored)
    (before : ∀ addrStored, board.stage ≠ .storing addrStored) :
    site.Sound name { board with stage := stage, pairing := pairing } where
  heard := sound.heard
  settled _ := sound.settled settled
  elected := sound.election rfl rfl rfl
  keyed addrStored storing := absurd storing (notStoring addrStored)
  addrStored storing := absurd storing (notStoring true)
  stored _ := sound.stored before

theorem proximityPair (sound : site.Sound name board) (running : board.stage = .running) :
    site.Sound name board.proximityPair where
  heard := sound.heard
  settled electing := absurd rfl electing
  elected := sound.election rfl rfl rfl
  keyed := nofun
  addrStored := nofun
  stored _ := sound.stored fun addrStored storing => by
    rw [running] at storing
    cases storing

theorem atTrain (sound : site.Sound name board) (ok : Bool) (taken : Nat) :
    site.Sound name (board.atTrain ok taken) where
  heard rx member := sound.heard rx (List.mem_of_mem_drop member)
  settled := sound.settled
  elected := sound.election rfl rfl rfl
  keyed addrStored storing := by
    rw [Elector.atTrain, sound.keyed addrStored storing, Bool.true_or]
  addrStored := sound.addrStored
  stored := sound.stored

/-- What is stored before an election is no election's. -/
theorem saveSettings (sound : site.Sound name board) : site.Sound name board.saveSettings where
  heard := sound.heard
  settled := sound.settled
  elected := sound.election rfl rfl rfl
  keyed := sound.keyed
  addrStored _ := rfl
  stored _ peerMac elected := by
    rcases sound.elected peerMac elected with ⟨foreign, role, addressed⟩
    exact ⟨foreign, _, _, rfl, rfl, role ▸ addressed⟩

theorem train (sound : site.Sound name board) (training : board.stage = .training) (ok : Bool) :
    site.Sound name (board.train ok) := by
  have settled : board.stage ≠ .discovering := by
    rw [training]
    exact nofun
  rw [Elector.train]
  split
  · exact {
      heard := sound.heard
      settled := fun _ => sound.settled settled
      elected := sound.election rfl rfl rfl
      keyed := fun _ _ => rfl
      addrStored := nofun
      stored := fun notStoring => absurd rfl (notStoring false) }
  · refine sound.stay false settled nofun ?_
    rw [training]
    exact nofun

theorem persistRole (sound : site.Sound name board) {addrStored : Bool}
    (storing : board.stage = .storing addrStored) :
    site.Sound name (board.persistRole addrStored) := by
  have settled : board.stage ≠ .discovering := by
    rw [storing]
    exact nofun
  cases addrStored with
  | false =>
      exact {
        heard := sound.heard
        settled := fun _ => sound.settled settled
        elected := sound.election rfl rfl rfl
        keyed := fun _ _ => sound.keyed false storing
        addrStored := fun _ => rfl
        stored := fun notStoring => absurd rfl (notStoring true) }
  | true =>
      exact {
        heard := sound.heard
        settled := fun _ => sound.settled settled
        elected := sound.election rfl rfl rfl
        keyed := nofun
        addrStored := nofun
        stored := by
          intro _ peerMac elected
          rcases sound.elected peerMac elected with ⟨foreign, role, addressed⟩
          exact ⟨foreign, _, _, sound.addrStored storing, rfl, role ▸ addressed⟩ }

theorem boot (sound : site.Sound name board)
    (whole : board.paired = true → board.savedBy ≠ none ∧
      ∀ addrStored, board.stage ≠ .storing addrStored) :
    site.Sound name (board.boot site.build site.proxPair) where
  heard := nofun
  settled electing := by
    have paired : (site.proxPair && board.paired) = true := by
      by_contra unpaired
      exact electing (if_neg unpaired)
    exact (whole (Bool.and_eq_true_iff.mp paired).2).1
  elected peerMac saved := by
    have notStoring : ∀ addrStored, board.stage ≠ .storing addrStored := fun addrStored storing =>
      (whole (sound.keyed addrStored storing)).2 addrStored storing
    rcases sound.stored notStoring peerMac saved with
      ⟨foreign, addr, peer, addrStored, peerStored, addressed⟩
    have cfg : Addressed (electInitiator (site.mac name).toList peerMac)
        (board.boot site.build site.proxPair).cfg.addr
        (board.boot site.build site.proxPair).cfg.peer := by
      simp only [Elector.boot, addrStored, peerStored, Option.getD_some]
      exact addressed
    have role : (board.boot site.build site.proxPair).initiator =
        electInitiator (site.mac name).toList peerMac :=
      recomputeRole_addressed cfg
    exact ⟨foreign, role, role ▸ cfg⟩
  keyed addrStored storing := by
    simp only [Elector.boot] at storing
    split at storing <;> cases storing
  addrStored storing := by
    simp only [Elector.boot] at storing
    split at storing <;> cases storing
  stored _ := by
    apply sound.stored
    intro addrStored storing
    exact (whole (sound.keyed addrStored storing)).2 addrStored storing

end Sound

/-! ### What all boards keep -/

def AllSound (site : Site Name) (boards : Name → Elector) : Prop :=
  ∀ name, site.Sound name (boards name)

namespace AllSound

variable {boards : Name → Elector}

theorem broadcast (sound : site.AllSound boards) {frame : Bytes}
    (known : discHandleRx true frame = true → ∃ other, frame = discBeacon (site.mac other))
    (reach : Name → Bool) : site.AllSound (Site.broadcast boards frame reach) := by
  intro name
  rw [Site.broadcast]
  split
  · exact (sound name).hear known
  · exact sound name

theorem beacon (sound : site.AllSound boards) (sender : Name) (reach : Name → Bool) :
    site.AllSound (Site.broadcast boards (discBeacon (site.mac sender)) reach) :=
  sound.broadcast (fun _ => ⟨sender, rfl⟩) reach

theorem blank : site.AllSound fun _ => Elector.blank site.build site.proxPair := by
  intro name
  have unpaired : (Elector.blank site.build site.proxPair).stage = .discovering := by
    rw [Elector.blank, Elector.boot, Bool.and_false]
    rfl
  exact {
    heard := nofun
    settled := fun electing => absurd unpaired electing
    elected := nofun
    keyed := by
      rw [unpaired]
      exact nofun
    addrStored := by
      rw [unpaired]
      exact nofun
    stored := nofun }

variable [DecidableEq Name]

theorem set (sound : site.AllSound boards) {board : Elector} (here : site.Sound name board) :
    site.AllSound (Site.set boards name board) := by
  intro other
  rw [Site.set]
  split
  next same => exact same ▸ here
  · exact sound other

theorem take (sound : site.AllSound boards) (reach : Name → Bool) {rx : Bytes} {rest : List Bytes}
    (queue : (boards name).queue = rx :: rest) :
    site.AllSound (site.take boards name reach rx rest) := by
  have left := (sound name).taken queue
  rw [Site.take]
  dsimp only
  split
  next electing =>
    split
    next found =>
      refine sound.set (left.elect ⟨found.2, ?_⟩ electing)
      rcases (sound name).heard rx (queue ▸ List.mem_cons_self) found.1 with ⟨other, rfl⟩
      exact ⟨other, rfl⟩
    · exact sound.set left
  · exact sound.set left
  · split
    · exact (sound.set left).beacon name reach
    · exact sound.set left
  · exact sound
  · exact sound

theorem step (sound : site.AllSound boards) {action : DiscoveryAction Name}
    (whole : StoresWhole boards action) : site.AllSound (site.step boards action) := by
  cases action with
  | beacon sender reach =>
      rw [Site.step]
      split
      · exact sound.beacon sender reach
      next done =>
        refine sound.set ((sound sender).stay _ ?_ ?_ ?_)
        · simp [done]
        · intro addrStored storing
          split at storing <;> cases storing
        · simp [done]
      next left more =>
        have settled : (boards sender).stage ≠ .discovering := by
          simp [more]
        have notStoring : ∀ addrStored, (boards sender).stage ≠ .storing addrStored := by
          simp [more]
        have later : site.Sound sender { boards sender with stage := .confirming left } :=
          (sound sender).stay _ settled (by simp) notStoring
        exact (sound.set later).beacon sender reach
      all_goals exact sound
  | take taker reach =>
      rw [Site.step]
      split
      · exact sound
      next queue => exact sound.take reach queue
  | transmit sender frame other reach =>
      have known : discHandleRx true frame = true →
          ∃ owner, frame = discBeacon (site.mac owner) := by
        simp [other]
      rw [Site.step]
      split
      · exact sound.broadcast known reach
      · exact sound.broadcast known reach
      · exact sound.broadcast known reach
      · exact sound.broadcast known reach
      · exact sound
  | train board ok =>
      rw [Site.step]
      split
      next training => exact sound.set ((sound board).train training ok)
      all_goals exact sound
  | persistRole board =>
      rw [Site.step]
      split
      next storing => exact sound.set ((sound board).persistRole storing)
      all_goals exact sound
  | proximityPair board =>
      rw [Site.step]
      split
      next running => exact sound.set ((sound board).proximityPair running)
      all_goals exact sound
  | atTrain board ok taken =>
      have trained := sound.set ((sound board).atTrain ok taken)
      rw [Site.step]
      split
      · exact trained
      · exact trained
      · exact trained
      all_goals exact sound
  | saveSettings board =>
      have saved := sound.set (sound board).saveSettings
      rw [Site.step]
      split
      · exact saved
      · exact saved
      · exact saved
      all_goals exact sound
  | reboot board =>
      refine sound.set ((sound board).boot fun paired => ?_)
      rcases whole paired with ⟨saved, notStoring⟩
      exact ⟨saved, Bool.forall_bool.mpr notStoring⟩

end AllSound

/-! ### Opposite roles -/

/-- Two boards as they leave the factory. -/
def twoBoards (proxPair : Bool) : Site Bool where
  build := .standard
  proxPair := proxPair
  mac := fun name => if name then #v[2, 0, 0, 0, 0, 7] else #v[2, 0, 0, 0, 0, 9]

def atOther (name : Bool) : Bool → Bool :=
  fun listener => listener != name

/-- The confirming beacons, and the stage after them. -/
def confirms (name : Bool) : List (DiscoveryAction Bool) :=
  List.replicate (discConfirm + 1) (.beacon name (atOther name))

def elections : List (DiscoveryAction Bool) :=
  [.beacon false (atOther false), .take true (atOther true)] ++ confirms true ++
    [.take false (atOther false)] ++ confirms false

/-- Power is lost after the key is stored: both boards come back with the address 1. -/
example :
    let boards := (twoBoards true).run (fun _ => Elector.blank .standard true)
      (elections ++ [.train false true, .train true true, .reboot false, .reboot true])
    ((boards true).initiator, (boards true).cfg.addr) = (true, 1) ∧
      ((boards false).initiator, (boards false).cfg.addr) = (true, 1) := by
  decide

end Site

/-! ### Beacons that outlive the election -/

/-- The beacons in the RX ring. -/
def Elector.beacons (board : Elector) : Nat :=
  board.queue.countP (discHandleRx true)

/-- The next frame that the board takes is a beacon. -/
def Elector.takesBeacon (board : Elector) : Bool :=
  board.queue.head?.any (discHandleRx true)

namespace Site

variable {Name : Type} {site : Site Name}

/-- A step of the turn loops; no board hears itself. -/
def Turning (_ : Name → Elector) : DiscoveryAction Name → Prop
  | .take name reach => reach name = false
  | .transmit _ _ _ _ => True
  | _ => False

/-- Where the board takes a beacon, every other board hears the answer and has room for it. -/
def Answered (boards : Name → Elector) : DiscoveryAction Name → Prop
  | .take name reach => (boards name).takesBeacon = true → ∀ listener, listener ≠ name →
      reach listener = true ∧ (boards listener).queue.length < rxRingSlots - 1
  | .transmit _ _ _ _ => True
  | _ => False

instance (boards : Name → Elector) :
    (action : DiscoveryAction Name) → Decidable (Turning boards action)
  | .take name reach => inferInstanceAs (Decidable (reach name = false))
  | .transmit _ _ _ _ => inferInstanceAs (Decidable True)
  | .beacon _ _ | .train _ _ | .persistRole _ | .proximityPair _ | .atTrain _ _ _
  | .saveSettings _ | .reboot _ => inferInstanceAs (Decidable False)

instance [Fintype Name] [DecidableEq Name] (boards : Name → Elector) :
    (action : DiscoveryAction Name) → Decidable (Answered boards action)
  | .take name reach =>
      inferInstanceAs (Decidable ((boards name).takesBeacon = true → ∀ listener, listener ≠ name →
        reach listener = true ∧ (boards listener).queue.length < rxRingSlots - 1))
  | .transmit _ _ _ _ => inferInstanceAs (Decidable True)
  | .beacon _ _ | .train _ _ | .persistRole _ | .proximityPair _ | .atTrain _ _ _
  | .saveSettings _ | .reboot _ => inferInstanceAs (Decidable False)

/-- A frame that is no beacon changes no count. -/
theorem beacons_hear (board : Elector) {frame : Bytes} (other : discHandleRx true frame = false) :
    (board.hear frame).stage = board.stage ∧ (board.hear frame).beacons = board.beacons := by
  rw [Elector.hear]
  split
  · refine ⟨rfl, ?_⟩
    simp [Elector.beacons, List.countP_append, other]
  · exact ⟨rfl, rfl⟩

theorem beacons_hear_beacon (board : Elector) (mac : Mac) :
    (board.hear (discBeacon mac)).stage = board.stage ∧
      (board.hear (discBeacon mac)).beacons ≤ board.beacons + 1 ∧
      (board.queue.length < rxRingSlots - 1 →
        (board.hear (discBeacon mac)).beacons = board.beacons + 1) := by
  have counted : discHandleRx true (discBeacon mac) = true := by
    simp [discHandleRx, discBeacon, discMagic, discFrameLen]
  rw [Elector.hear]
  split
  · have more : (board.queue ++ [discBeacon mac]).countP (discHandleRx true) =
        board.beacons + 1 := by
      rw [List.countP_append, List.countP_singleton, if_pos counted]
      rfl
    exact ⟨rfl, more.le, fun _ => more⟩
  next full => exact ⟨rfl, Nat.le_succ _, fun room => absurd room full⟩

variable {boards : Name → Elector} {one other : Name}

/-- Both boards are in their turn loops, with so many beacons in their RX rings. -/
structure Circulating (boards : Name → Elector) (one other : Name) (count : Nat) : Prop where
  runsOne : (boards one).stage = .running
  runsOther : (boards other).stage = .running
  counted : (boards one).beacons + (boards other).beacons = count

theorem Circulating.symm {count : Nat} (circulating : Circulating boards one other count) :
    Circulating boards other one count :=
  ⟨circulating.runsOther, circulating.runsOne, (Nat.add_comm _ _).trans circulating.counted⟩

variable [DecidableEq Name]

theorem take_running (site : Site Name) {name : Name} (running : (boards name).stage = .running)
    (reach : Name → Bool) (rx : Bytes) (rest : List Bytes) :
    ∃ left : Elector, left.stage = .running ∧ left.beacons = rest.countP (discHandleRx true) ∧
      site.take boards name reach rx rest =
        if discHandleRx true rx then
          broadcast (set boards name left) (discBeacon (site.mac name)) reach
        else set boards name left :=
  ⟨{ boards name with
      stage := .running
      queue := rest }, rfl, rfl, by simp only [Site.take, running]⟩

/-- A board that takes a beacon sends one. -/
theorem Circulating.take (site : Site Name) {count : Nat}
    (circulating : Circulating boards one other count)
    (distinct : other ≠ one) {reach : Name → Bool} (deaf : reach one = false) :
    ∃ after ≤ count, Circulating (site.step boards (.take one reach)) one other after ∧
      (((boards one).takesBeacon = true →
        reach other = true ∧ (boards other).queue.length < rxRingSlots - 1) → after = count) := by
  rcases circulating with ⟨runningOne, runningOther, counted⟩
  rw [Site.step]
  split
  · exact ⟨count, Nat.le_refl _, ⟨runningOne, runningOther, counted⟩, fun _ => rfl⟩
  next rx rest queue =>
    have held : (boards one).beacons =
        rest.countP (discHandleRx true) + if discHandleRx true rx = true then 1 else 0 := by
      rw [Elector.beacons, queue, List.countP_cons]
    rcases take_running site runningOne reach rx rest with ⟨left, running, fewer, taken⟩
    rw [taken]
    split
    next beacon =>
      have takes : (boards one).takesBeacon = true := by
        rw [Elector.takesBeacon, queue, List.head?_cons, Option.any_some, beacon]
      rw [if_pos beacon] at held
      rcases beacons_hear_beacon (boards other) (site.mac one) with ⟨stage, more, room⟩
      have keeps :
          broadcast (set boards one left) (discBeacon (site.mac one)) reach one = left := by
        simp [broadcast, set, deaf]
      have hears : broadcast (set boards one left) (discBeacon (site.mac one)) reach other =
          if reach other then (boards other).hear (discBeacon (site.mac one))
          else boards other := by
        simp [broadcast, set, distinct]
      cases reached : reach other with
      | true =>
          rw [reached, if_pos rfl] at hears
          refine ⟨_, ?_, ⟨?_, ?_, rfl⟩, fun answered => ?_⟩
          · rw [keeps, hears]
            omega
          · rw [keeps, running]
          · rw [hears, stage, runningOther]
          · rw [keeps, hears, room (answered takes).2]
            omega
      | false =>
          rw [reached, if_neg Bool.false_ne_true] at hears
          refine ⟨_, ?_, ⟨?_, ?_, rfl⟩, fun answered => ?_⟩
          · rw [keeps, hears]
            omega
          · rw [keeps, running]
          · rw [hears, runningOther]
          · exact absurd (answered takes).1 Bool.false_ne_true
    next plain =>
      rw [if_neg plain] at held
      have keeps : set boards one left one = left := if_pos rfl
      have same : set boards one left other = boards other := if_neg distinct
      refine ⟨count, Nat.le_refl _, ⟨?_, ?_, ?_⟩, fun _ => rfl⟩
      · rw [keeps, running]
      · rw [same, runningOther]
      · rw [keeps, same]
        omega

theorem Circulating.transmit (site : Site Name) {count : Nat}
    (circulating : Circulating boards one other count)
    (sender : Name) {frame : Bytes} (plain : discHandleRx true frame = false)
    (reach : Name → Bool) :
    Circulating (site.step boards (.transmit sender frame plain reach)) one other count := by
  have heard : ∀ name, (broadcast boards frame reach name).stage = (boards name).stage ∧
      (broadcast boards frame reach name).beacons = (boards name).beacons := by
    intro name
    rw [broadcast]
    split
    · exact beacons_hear (boards name) plain
    · exact ⟨rfl, rfl⟩
  have after : Circulating (broadcast boards frame reach) one other count :=
    ⟨(heard one).1.trans circulating.runsOne, (heard other).1.trans circulating.runsOther, by
      rw [(heard one).2, (heard other).2]
      exact circulating.counted⟩
  rw [Site.step]
  split
  · exact after
  · exact after
  · exact after
  · exact after
  · exact circulating

theorem Circulating.step (site : Site Name) {count : Nat}
    (circulating : Circulating boards one other count)
    (distinct : one ≠ other) (only : ∀ name, name = one ∨ name = other)
    {action : DiscoveryAction Name} (turning : Turning boards action) :
    ∃ after ≤ count, Circulating (site.step boards action) one other after ∧
      (Answered boards action → after = count) := by
  cases action with
  | take name reach =>
      rcases only name with rfl | rfl
      · rcases circulating.take site distinct.symm turning with ⟨after, fewer, later, same⟩
        exact ⟨after, fewer, later, fun answered =>
          same fun takes => answered takes other distinct.symm⟩
      · rcases circulating.symm.take site distinct turning with ⟨after, fewer, later, same⟩
        exact ⟨after, fewer, later.symm, fun answered =>
          same fun takes => answered takes one distinct⟩
  | transmit sender frame plain reach =>
      exact ⟨count, Nat.le_refl _, circulating.transmit site sender plain reach, fun _ => rfl⟩
  | beacon | train | persistRole | proximityPair | atTrain | saveSettings | reboot =>
      exact turning.elim

/-- Between two boards in their turn loops the beacons never grow in number, over any run of the
turns; and where every answer to a beacon is heard none of them ever goes away. -/
theorem circulating_run (site : Site Name) {count : Nat} (distinct : one ≠ other)
    (only : ∀ name, name = one ∨ name = other) (circulating : Circulating boards one other count)
    {actions : List (DiscoveryAction Name)} (turning : Along site.step Turning boards actions) :
    ∃ after ≤ count, Circulating (site.run boards actions) one other after ∧
      (Along site.step Answered boards actions → after = count) := by
  induction actions generalizing boards count with
  | nil => exact ⟨count, Nat.le_refl _, circulating, fun _ => rfl⟩
  | cons action rest inductionHypothesis =>
      rcases circulating.step site distinct only turning.1 with ⟨next, fewer, later, same⟩
      rcases inductionHypothesis later turning.2 with ⟨after, fewest, last, unchanged⟩
      refine ⟨after, fewest.trans fewer, last, fun answered => ?_⟩
      rw [unchanged answered.2, same answered.1]

/-- Two boards that elect at every boot go to their turn loops. -/
def elected : Bool → Elector :=
  (twoBoards false).run (fun _ => Elector.blank .standard false) elections

def turns : List (DiscoveryAction Bool) :=
  [.take true (atOther true), .take false (atOther false), .transmit true [2, 1] rfl (atOther true),
    .take false (atOther false), .take true (atOther true)]

theorem circulating_run_turns :
    Circulating ((twoBoards false).run elected turns) true false 11 := by
  have start : Circulating elected true false 11 := by
    constructor <;> decide
  rcases circulating_run (twoBoards false) (by decide) Bool.eq_false_or_eq_true start
    (by decide : Along (twoBoards false).step Turning elected turns) with ⟨after, -, later, same⟩
  have all : after = 11 := same (by decide)
  exact all ▸ later

end Site

end LoraSerial.Device
