import LoraSerial.Device.ModeControl

/-!
Owns the three recovery lines of a silent board: radio re-init, rendezvous on 'medium'
and reboot, with thresholds that follow the time on air of the mode the board is on and
one 32-bit silence clock.
-/

namespace LoraSerial.Device

/-! ### Thresholds -/

section Thresholds

variable (timeOnAir : Phy → UInt32)

def retransmitMs (radio : Radio) : UInt32 :=
  (deriveTiming (timeOnAir radio.phy)).retransmitMs

/-- `RecoveryMs` -/
def recoveryMs (radio : Radio) (floorMs mult : UInt32) : UInt32 :=
  let scaled := mult * retransmitMs timeOnAir radio
  if floorMs < scaled then scaled else floorMs

def radioStuckMs (radio : Radio) : UInt32 := recoveryMs timeOnAir radio 5000 3

def rendezvousMs (radio : Radio) : UInt32 := recoveryMs timeOnAir radio 9000 5

def rebootMs (radio : Radio) : UInt32 := recoveryMs timeOnAir radio 45000 12

theorem le_recoveryMs (radio : Radio) (floorMs mult : UInt32) :
    floorMs ≤ recoveryMs timeOnAir radio floorMs mult := by
  unfold recoveryMs
  dsimp only
  split
  next above => exact UInt32.le_of_lt above
  · exact UInt32.le_refl _

/-- No threshold overflows. -/
theorem recoveryMs_toNat (radio : Radio) {floorMs mult : UInt32} (small : mult.toNat ≤ 128) :
    (recoveryMs timeOnAir radio floorMs mult).toNat =
      max floorMs.toNat (mult.toNat * (retransmitMs timeOnAir radio).toNat) := by
  have short : (retransmitMs timeOnAir radio).toNat < 2 ^ 25 := retransmitMs_lt _
  have wide : mult.toNat * (retransmitMs timeOnAir radio).toNat < 2 ^ 32 :=
    Nat.lt_of_lt_of_le (Nat.mul_lt_mul_of_le_of_lt small short (by decide)) (by decide)
  have scaled : (mult * retransmitMs timeOnAir radio).toNat =
      mult.toNat * (retransmitMs timeOnAir radio).toNat := by
    rw [UInt32.toNat_mul, Nat.mod_eq_of_lt wide]
  unfold recoveryMs
  dsimp only
  split
  next above =>
    rw [UInt32.lt_iff_toNat_lt, scaled] at above
    omega
  next below =>
    rw [UInt32.not_lt, UInt32.le_iff_toNat_le, scaled] at below
    omega

/-- On one mode the thresholds are in order, whatever its time on air. -/
theorem thresholds_order (radio : Radio) :
    radioStuckMs timeOnAir radio < rendezvousMs timeOnAir radio ∧
      rendezvousMs timeOnAir radio < rebootMs timeOnAir radio := by
  simp only [UInt32.lt_iff_toNat_lt, radioStuckMs, rendezvousMs, rebootMs]
  rw [recoveryMs_toNat timeOnAir radio (by decide), recoveryMs_toNat timeOnAir radio (by decide),
    recoveryMs_toNat timeOnAir radio (by decide)]
  have stuck : (5000 : UInt32).toNat = 5000 ∧ (3 : UInt32).toNat = 3 := ⟨rfl, rfl⟩
  have rendezvous : (9000 : UInt32).toNat = 9000 ∧ (5 : UInt32).toNat = 5 := ⟨rfl, rfl⟩
  have reboot : (45000 : UInt32).toNat = 45000 ∧ (12 : UInt32).toNat = 12 := ⟨rfl, rfl⟩
  rw [stuck.1, stuck.2, rendezvous.1, rendezvous.2, reboot.1, reboot.2]
  omega

end Thresholds

/-! ### The recovery lines -/

/-- A board with the clocks of its recovery lines; `adr` is FEAT_ADR. -/
structure Watch where
  node : Node
  adr : Bool
  lastRx : UInt32
  lastRendezvous : UInt32
  lastReinit : UInt32
deriving DecidableEq, Repr

/-- The decision of the adaptive data rate in one pass. -/
inductive AdrAction where
  | none
  | request (idx : Nat)
  | abort
deriving DecidableEq, Repr

namespace Watch

variable (timeOnAir : Phy → UInt32)

def maybeReinitRadio (watch : Watch) (now : UInt32) : Watch :=
  if now - watch.lastRx < radioStuckMs timeOnAir watch.node.radio then watch
  else if now - watch.lastReinit < radioStuckMs timeOnAir watch.node.radio then watch
  else { watch with lastReinit := now, node := { watch.node with radio := watch.node.radio.reinit } }

def maybeRendezvous (watch : Watch) (now : UInt32) : Watch :=
  if !watch.adr && !watch.node.radio.phyFsk then watch
  else if now - watch.lastRx < rendezvousMs timeOnAir watch.node.radio then watch
  else if now - watch.lastRendezvous < rendezvousMs timeOnAir watch.node.radio then watch
  else { watch with lastRendezvous := now, node := watch.node.rendezvous }

/-- `MaybeReboot` reboots the board. -/
def maybeReboot (watch : Watch) (now : UInt32) : Bool :=
  watch.lastRx ≠ 0 && rebootMs timeOnAir watch.node.radio ≤ now - watch.lastRx

def driveAdr (watch : Watch) : AdrAction → Watch
  | .none => watch
  | .request idx => { watch with node := { watch.node with ms := watch.node.ms.request idx } }
  | .abort => { watch with node := { watch.node with ms := watch.node.ms.abort } }

/-- `MaybeRendezvous` leaves the mode the board is on. -/
def moves (watch : Watch) (now : UInt32) : Bool :=
  (watch.adr || watch.node.radio.phyFsk) &&
    rendezvousMs timeOnAir watch.node.radio ≤ now - watch.lastRx &&
    rendezvousMs timeOnAir watch.node.radio ≤ now - watch.lastRendezvous &&
    watch.node.radio.currentModeIndex ≠ some medium

end Watch

/-! ### Silent passes -/

/-- One pass of the loop without a frame. The times of its steps are milliseconds since
the rendezvous, in true time. -/
structure SilentPass where
  polled : Nat
  reinit : Nat
  rendezvous : Nat
  reboot : Nat
  decision : AdrAction
deriving DecidableEq, Repr

namespace Watch

variable (timeOnAir : Phy → UInt32)

/-- A pass up to `MaybeReboot`. -/
def enterPass (start : UInt32) (watch : Watch) (pass : SilentPass) : Watch :=
  let now := start + UInt32.ofNat pass.polled
  let polled := { watch with node := watch.node.step (.polled now now) }
  (polled.maybeReinitRadio timeOnAir (start + UInt32.ofNat pass.reinit)).maybeRendezvous timeOnAir
    (start + UInt32.ofNat pass.rendezvous)

/-- When the board first reboots in a row of silent passes. -/
def firstReboot (start : UInt32) (watch : Watch) : List SilentPass → Option Nat
  | [] => none
  | pass :: rest =>
      let entered := enterPass timeOnAir start watch pass
      if entered.maybeReboot timeOnAir (start + UInt32.ofNat pass.reboot) then some pass.reboot
      else firstReboot start (entered.driveAdr pass.decision) rest

/-- When the board first reboots after the rendezvous at `now`: `reboot` later in the
same pass, or in a later one. -/
def rebootAfter (watch : Watch) (now : UInt32) (reboot : Nat) (decision : AdrAction)
    (passes : List SilentPass) : Option Nat :=
  let moved := watch.maybeRendezvous timeOnAir now
  if moved.maybeReboot timeOnAir (now + UInt32.ofNat reboot) then some reboot
  else firstReboot timeOnAir now (moved.driveAdr decision) passes

/-- The radio on the rendezvous mode. -/
def mediumRadio : Radio := .setup ⟨7, 1, 5⟩ ⟨7, 1, 5⟩

/-- After the rendezvous the board listens for a rendezvous timeout of 'medium' before it
reboots, however its passes are spaced. -/
def ListensFirst (watch : Watch) (now : UInt32) : Prop :=
  ∀ reboot decision passes, ∀ elapsed ∈ watch.rebootAfter timeOnAir now reboot decision passes,
    (rendezvousMs timeOnAir mediumRadio).toNat ≤ elapsed

/-- On 'medium' since the rendezvous, with nothing heard. -/
structure Listening (lastRx : UInt32) (watch : Watch) : Prop where
  radio : watch.node.radio = mediumRadio
  lastRx : watch.lastRx = lastRx
  apply : watch.node.ms.apply = none
  probation : watch.node.ms.probation = false

variable {timeOnAir} {watch : Watch} {lastRx : UInt32}

theorem rendezvous_radio (node : Node) (away : node.radio.currentModeIndex ≠ some medium) :
    node.rendezvous = { radio := mediumRadio, ms := .begin probationMs (some medium) } := by
  have row : rfModes[medium]? =
      some { name := "medium", sf := 7, bwCode := 1, cr := 5, fsk := false } := rfl
  unfold Node.rendezvous
  rw [if_pos away, Radio.applyModeByIndex_ofMode node.radio row]
  rfl

/-- The moving pass. -/
theorem listening_of_moves {now : UInt32} (moves : watch.moves timeOnAir now = true) :
    (watch.maybeRendezvous timeOnAir now).Listening watch.lastRx := by
  simp only [Watch.moves, Bool.and_eq_true, decide_eq_true_eq, ne_eq] at moves
  obtain ⟨⟨⟨auto, silent⟩, rested⟩, away⟩ := moves
  have allowed : ¬(!watch.adr && !watch.node.radio.phyFsk) = true := by
    cases adr : watch.adr <;> simp_all
  unfold maybeRendezvous
  rw [if_neg allowed, if_neg (UInt32.not_lt.mpr silent), if_neg (UInt32.not_lt.mpr rested),
    rendezvous_radio _ away]
  exact ⟨rfl, rfl, rfl, rfl⟩

theorem Listening.polled (listening : watch.Listening lastRx) (now taken : UInt32) :
    watch.node.step (.polled now taken) = watch.node := by
  simp [Node.step, ModeSwitch.poll, listening.probation, Node.serviceModeSwitch,
    ModeSwitch.takeApply, listening.apply]

theorem Listening.maybeReinitRadio (listening : watch.Listening lastRx) (now : UInt32) :
    (watch.maybeReinitRadio timeOnAir now).Listening lastRx := by
  unfold Watch.maybeReinitRadio
  split
  · exact listening
  · split
    · exact listening
    · refine { listening with radio := ?_ }
      change watch.node.radio.reinit = mediumRadio
      rw [listening.radio]
      rfl

/-- On 'medium' a rendezvous only notes the time. -/
theorem Listening.maybeRendezvous (listening : watch.Listening lastRx) (now : UInt32) :
    (watch.maybeRendezvous timeOnAir now).Listening lastRx := by
  have there : ¬watch.node.radio.currentModeIndex ≠ some medium := by
    rw [listening.radio]
    decide
  have stays : watch.node.rendezvous = watch.node := if_neg there
  unfold Watch.maybeRendezvous
  split
  · exact listening
  · split
    · exact listening
    · split
      · exact listening
      · rw [stays]
        exact { listening with }

theorem Listening.enterPass (timeOnAir : Phy → UInt32) (listening : watch.Listening lastRx)
    (start : UInt32) (pass : SilentPass) :
    (enterPass timeOnAir start watch pass).Listening lastRx := by
  unfold Watch.enterPass
  dsimp only
  rw [listening.polled]
  exact (listening.maybeReinitRadio _).maybeRendezvous _

theorem Listening.driveAdr (listening : watch.Listening lastRx) (decision : AdrAction) :
    (watch.driveAdr decision).Listening lastRx := by
  cases decision with
  | none => exact listening
  | request idx =>
      simp only [Watch.driveAdr]
      unfold ModeSwitch.request
      split
      · exact listening
      · exact { listening with }
  | abort => exact { listening with }

theorem Listening.maybeReboot (listening : watch.Listening lastRx) (linked : lastRx ≠ 0)
    (now : UInt32) :
    watch.maybeReboot timeOnAir now = decide (rebootMs timeOnAir mediumRadio ≤ now - lastRx) := by
  simp [Watch.maybeReboot, listening.lastRx, listening.radio, linked]

/-! ### How long it listens -/

/-- A board that has not yet spent the rendezvous timeout does not reboot. -/
theorem Listening.late (listening : watch.Listening lastRx) (linked : lastRx ≠ 0) {now : UInt32}
    (room : (now - lastRx).toNat + (rendezvousMs timeOnAir mediumRadio).toNat ≤
      (rebootMs timeOnAir mediumRadio).toNat) {elapsed : Nat}
    (reboots : watch.maybeReboot timeOnAir (now + UInt32.ofNat elapsed) = true) :
    (rendezvousMs timeOnAir mediumRadio).toNat ≤ elapsed := by
  rw [listening.maybeReboot linked, decide_eq_true_eq, UInt32.le_iff_toNat_le, silence_toNat]
    at reboots
  have bound := (rebootMs timeOnAir mediumRadio).toNat_lt
  by_contra early
  rw [Nat.mod_eq_of_lt (by omega)] at reboots
  omega

theorem Listening.firstReboot (listening : watch.Listening lastRx) (linked : lastRx ≠ 0)
    {now : UInt32}
    (room : (now - lastRx).toNat + (rendezvousMs timeOnAir mediumRadio).toNat ≤
      (rebootMs timeOnAir mediumRadio).toNat) (passes : List SilentPass) {elapsed : Nat}
    (reboots : firstReboot timeOnAir now watch passes = some elapsed) :
    (rendezvousMs timeOnAir mediumRadio).toNat ≤ elapsed := by
  induction passes generalizing watch with
  | nil => cases reboots
  | cons pass rest inductionHypothesis =>
      have entered := listening.enterPass timeOnAir now pass
      simp only [Watch.firstReboot] at reboots
      split at reboots
      next here =>
        cases reboots
        exact entered.late linked room here
      · exact inductionHypothesis (entered.driveAdr pass.decision) reboots

/-- After a rendezvous the board listens on 'medium' for a rendezvous timeout of that mode
before it can reboot, however its passes are spaced, if and only if that timeout still
fits between the silence at the rendezvous and the reboot timeout of 'medium'. -/
theorem listensFirst_iff (timeOnAir : Phy → UInt32) (watch : Watch) (now : UInt32)
    (linked : watch.lastRx ≠ 0) (moves : watch.moves timeOnAir now = true) :
    watch.ListensFirst timeOnAir now ↔
      (now - watch.lastRx).toNat + (rendezvousMs timeOnAir mediumRadio).toNat ≤
        (rebootMs timeOnAir mediumRadio).toNat := by
  have listening := listening_of_moves moves
  constructor
  · intro listens
    -- The pass whose reboot check comes as soon as the silence allows.
    have soonest := listens
      ((rebootMs timeOnAir mediumRadio).toNat - (now - watch.lastRx).toNat) .none []
      ((rebootMs timeOnAir mediumRadio).toNat - (now - watch.lastRx).toNat) ?_
    · have positive := UInt32.le_iff_toNat_le.mp (le_recoveryMs timeOnAir mediumRadio 9000 5)
      change 9000 ≤ (rendezvousMs timeOnAir mediumRadio).toNat at positive
      omega
    · have bound := (rebootMs timeOnAir mediumRadio).toNat_lt
      have silence := (now - watch.lastRx).toNat_lt
      have due : (watch.maybeRendezvous timeOnAir now).maybeReboot timeOnAir
          (now + UInt32.ofNat
            ((rebootMs timeOnAir mediumRadio).toNat - (now - watch.lastRx).toNat)) = true := by
        rw [listening.maybeReboot linked, decide_eq_true_eq, UInt32.le_iff_toNat_le, silence_toNat]
        omega
      exact if_pos due
  · intro room reboot decision passes elapsed reboots
    simp only [rebootAfter, Option.mem_def] at reboots
    split at reboots
    next here =>
      cases reboots
      exact listening.late linked room here
    · exact (listening.driveAdr decision).firstReboot linked room passes reboots

/-- A board on a mode after a linked time, silent since 1000 ms. -/
def silentOn (cfg : PhyConfig) : Watch where
  node := .setup cfg cfg
  adr := true
  lastRx := 1000
  lastRendezvous := 0
  lastReinit := 0

/-- 'fast' and 'medium' frames of 200 ms: the board leaves 'fast' after 14600 ms. -/
theorem listensFirst_iff_fast :
    (silentOn ⟨7, 2, 5⟩).ListensFirst (fun _ => 200000) 15600 ↔
      ((15600 : UInt32) - (silentOn ⟨7, 2, 5⟩).lastRx).toNat +
          (rendezvousMs (fun _ => 200000) mediumRadio).toNat ≤
        (rebootMs (fun _ => 200000) mediumRadio).toNat :=
  listensFirst_iff (fun _ => 200000) (silentOn ⟨7, 2, 5⟩) 15600 (by decide) (by decide)

/-- Frames of 13 s on 'far', of 200 ms elsewhere. -/
def farTimeOnAir (phy : Phy) : UInt32 :=
  if phy = .lora ⟨12, 0, 8⟩ then 13000000 else 200000

/-- 366 s of silence move a board from 'far' to 'medium', and it reboots in that pass. -/
theorem far_reboots_at_once :
    (silentOn ⟨12, 0, 8⟩).moves farTimeOnAir 367000 = true ∧
      ¬(silentOn ⟨12, 0, 8⟩).ListensFirst farTimeOnAir 367000 := by
  refine ⟨by decide, fun listens => ?_⟩
  have atOnce := listens 0 .none [] 0 (by decide)
  exact absurd atOnce (by decide)

end Watch

end LoraSerial.Device
