import LoraSerial.Device.AutoPower
import LoraSerial.Library.Schedule
import Mathlib.Algebra.Order.Floor.Ring
import Mathlib.Tactic.Linarith
import Mathlib.Tactic.NormNum

/-!
Owns the power loop on a fixed path: which way it moves on a report of an earlier power, and
when it comes to rest instead of hunting.
-/

namespace LoraSerial.Device

open Library.Run

/-! ### Reported margins -/

theorem le_lround (x : ℚ) : x - 1 / 2 ≤ lround x := by
  unfold lround
  split
  · have := Int.lt_floor_add_one (x + 1 / 2)
    linarith
  · have := Int.floor_le (1 / 2 - x)
    push_cast
    linarith

theorem lround_le (x : ℚ) : lround x ≤ x + 1 / 2 := by
  unfold lround
  split
  · have := Int.floor_le (x + 1 / 2)
    linarith
  · have := Int.lt_floor_add_one (1 / 2 - x)
    push_cast
    linarith

theorem lround_mono {x y : ℚ} (le : x ≤ y) : lround x ≤ lround y := by
  unfold lround
  split
  next positive =>
    rw [if_pos (le_trans positive le)]
    exact Int.floor_le_floor (by linarith)
  next negative =>
    split
    next positive =>
      have below : 0 ≤ ⌊1 / 2 - x⌋ := Int.floor_nonneg.mpr (by linarith)
      have above : 0 ≤ ⌊y + 1 / 2⌋ := Int.floor_nonneg.mpr (by linarith)
      omega
    · exact neg_le_neg (Int.floor_le_floor (by linarith))

/-- Six decibels less are reported as at most seven less. -/
theorem lround_sub_six (x : ℚ) : lround x - 7 ≤ lround (x - 6) := by
  have upper := lround_le x
  have lower := le_lround (x - 6)
  have apart : (lround x : ℚ) - lround (x - 6) ≤ 7 := by linarith
  have whole : lround x - lround (x - 6) ≤ 7 := by exact_mod_cast apart
  omega

theorem snrToAux_mono {x y : ℚ} (le : x ≤ y) : snrToAux x ≤ snrToAux y :=
  lround_mono (max_le_max le_rfl (min_le_min le_rfl le))

theorem snrToAux_sub_six (x : ℚ) : snrToAux x - 7 ≤ snrToAux (x - 6) := by
  refine le_trans (lround_sub_six _) (lround_mono ?_)
  have low := le_max_left (-128) (min 127 (x - 6))
  have high := le_max_right (-128) (min 127 (x - 6))
  have inner : min 127 x ≤ min 127 (x - 6) + 6 := by
    rcases le_total 127 (x - 6) with above | below
    · rw [min_eq_left above]
      linarith [min_le_left 127 x]
    · rw [min_eq_right below]
      linarith [min_le_right 127 x]
  exact sub_le_iff_le_add.mpr (max_le (by linarith) (by linarith))

/-- The byte holds every report. -/
theorem snrToAux_mem (x : ℚ) : -128 ≤ snrToAux x ∧ snrToAux x ≤ 127 := by
  have low : lround (-128) = -128 := by norm_num [lround]
  have high : lround 127 = 127 := by norm_num [lround]
  constructor
  · rw [← low]
    exact lround_mono (le_max_left _ _)
  · rw [← high]
    exact lround_mono (max_le (by norm_num) (min_le_left _ _))

/-- The margin the peer reports of a power. -/
def reportedMargin (config : PowerConfig) (gain : ℚ) (power : Int) : Int :=
  snrToAux (power + gain) - config.floor

variable {config : PowerConfig} {gain : ℚ}

theorem reportedMargin_mono {p q : Int} (le : p ≤ q) :
    reportedMargin config gain p ≤ reportedMargin config gain q := by
  have cast : (p : ℚ) ≤ q := by exact_mod_cast le
  exact sub_le_sub_right (snrToAux_mono (by linarith)) _

theorem reportedMargin_sub_six (p : Int) :
    reportedMargin config gain p - 7 ≤ reportedMargin config gain (p - 6) := by
  have drop := snrToAux_sub_six (p + gain)
  have same : (p : ℚ) + gain - 6 = ((p - 6 : Int) : ℚ) + gain := by
    push_cast
    ring
  rw [same] at drop
  unfold reportedMargin
  omega

/-! ### Directions -/

/-- The power after a change. -/
def changed (up : Bool) (power : Int) : Int :=
  if up then power + autoPwrStepDb else power - autoPwrStepDb

/-- From one power to the other in a direction, or not at all. -/
def Toward (up : Bool) (p q : Int) : Prop :=
  if up then p ≤ q else q ≤ p

/-- A margin that asks for a change. -/
def Asks (up : Bool) (margin : Int) : Prop :=
  if up then margin < autoPwrMarginLo else autoPwrMarginHi < margin

/-- The limit leaves room for a change. -/
def Allows (up : Bool) (power : Int) : Prop :=
  if up then power < kTxPowerDbm else apPwrFloorDbm < power

/-- The margin is not past the far end of the band. -/
def Short (config : PowerConfig) (gain : ℚ) (up : Bool) (power : Int) : Prop :=
  ¬Asks (!up) (reportedMargin config gain power)

instance (up : Bool) (margin : Int) : Decidable (Asks up margin) :=
  match up with
  | true => inferInstanceAs (Decidable (margin < _))
  | false => inferInstanceAs (Decidable (_ < margin))

instance (up : Bool) (power : Int) : Decidable (Allows up power) :=
  match up with
  | true => inferInstanceAs (Decidable (power < _))
  | false => inferInstanceAs (Decidable (_ < power))

instance (up : Bool) (power : Int) : Decidable (Short config gain up power) :=
  inferInstanceAs (Decidable (¬_))

theorem Toward.refl (up : Bool) (p : Int) : Toward up p p := by
  cases up <;> exact le_rfl

theorem Toward.trans {up : Bool} {p q r : Int} (first : Toward up p q) (second : Toward up q r) :
    Toward up p r := by
  cases up
  · exact le_trans second first
  · exact le_trans first second

theorem toward_changed (up : Bool) (p : Int) : Toward up p (changed up p) := by
  cases up <;> simp [Toward, changed, autoPwrStepDb]

theorem Toward.reverse {up : Bool} {p q : Int} (toward : Toward up p q) : Toward (!up) q p := by
  cases up <;> exact toward

theorem changed_ne (up : Bool) (p : Int) : changed up p ≠ p := by
  cases up <;> simp [changed, autoPwrStepDb]

theorem Asks.not_other {up : Bool} {margin : Int} (asks : Asks up margin) : ¬Asks (!up) margin := by
  cases up <;> simp_all [Asks, autoPwrMarginLo, autoPwrMarginHi] <;> omega

/-- A margin short of the far end stays short on the way back. -/
theorem Short.of_toward {up : Bool} {p q : Int} (short : Short config gain up q)
    (toward : Toward up p q) : Short config gain up p := by
  cases up with
  | true =>
      have le : reportedMargin config gain p ≤ reportedMargin config gain q :=
        reportedMargin_mono toward
      simp only [Short, Asks, Bool.not_true, Bool.false_eq_true, if_false] at short ⊢
      omega
  | false =>
      have le : reportedMargin config gain q ≤ reportedMargin config gain p :=
        reportedMargin_mono toward
      simp only [Short, Asks, Bool.not_false, if_true] at short ⊢
      omega

/-- A report of a power at most two changes away never asks for one change too many. -/
theorem short_changed {up : Bool} {p power : Int} (asks : Asks up (reportedMargin config gain p))
    (near : p - 4 ≤ power ∧ power ≤ p + 4) : Short config gain up (changed up power) := by
  cases up with
  | true =>
      have drop : reportedMargin config gain (p + 6) - 7 ≤ reportedMargin config gain p := by
        have sub : reportedMargin config gain (p + 6) - 7 ≤
            reportedMargin config gain (p + 6 - 6) := reportedMargin_sub_six _
        rwa [add_sub_cancel_right] at sub
      have le : reportedMargin config gain (power + 2) ≤ reportedMargin config gain (p + 6) :=
        reportedMargin_mono (by omega)
      simp only [Short, Asks, changed, autoPwrStepDb, autoPwrMarginLo, autoPwrMarginHi,
        Bool.not_true, Bool.false_eq_true, if_false, if_true] at asks ⊢
      omega
  | false =>
      have drop : reportedMargin config gain p - 7 ≤ reportedMargin config gain (p - 6) :=
        reportedMargin_sub_six p
      have le : reportedMargin config gain (p - 6) ≤ reportedMargin config gain (power - 2) :=
        reportedMargin_mono (by omega)
      simp only [Short, Asks, changed, autoPwrStepDb, autoPwrMarginLo, autoPwrMarginHi,
        Bool.not_false, Bool.false_eq_true, if_false, if_true] at asks ⊢
      omega

/-! ### One adjustment -/

theorem adjustTxPower_cases (apwr : config.feat &&& featApwr ≠ 0)
    (lora : config.radio.phyFsk = false) (auxRx power : Int) :
    (∃ up, Asks up (auxRx - config.floor) ∧ Allows up power ∧
        adjustTxPower config auxRx false power = changed up power) ∨
      ((∀ up, Asks up (auxRx - config.floor) → ¬Allows up power) ∧
        adjustTxPower config auxRx false power = power) := by
  unfold adjustTxPower autoPowerStep
  rw [if_neg apwr, lora]
  simp only [Bool.false_eq_true, if_false]
  split
  next down => exact Or.inl ⟨false, down.1, down.2, rfl⟩
  next notDown =>
    split
    next up => exact Or.inl ⟨true, up.1, up.2, rfl⟩
    next notUp =>
      refine Or.inr ⟨fun up asks allows => ?_, rfl⟩
      cases up
      · exact notDown ⟨asks, allows⟩
      · exact notUp ⟨asks, allows⟩

/-! ### The loop and what it acts on -/

/-- The loop with the power each report is about: the last one the peer measured, the one on
its frames and the one we hold. A change made on a report sets `turned`. -/
structure Hunt where
  loop : PowerLoop
  peerAt : Option Int
  sentAt : Option Int
  readAt : Option Int
  lastMove : Option Bool
  reversals : Nat
  turned : Option Bool
deriving DecidableEq, Repr

namespace Hunt

def boot (power : Int) : Hunt where
  loop := .boot power
  peerAt := none
  sentAt := none
  readAt := none
  lastMove := none
  reversals := 0
  turned := none

def step (config : PowerConfig) (gain : ℚ) (h : Hunt) (event : PowerEvent) : Hunt :=
  let next := { h with loop := h.loop.step config gain event }
  match event with
  | .measured _ => { next with peerAt := some h.loop.power }
  | .reported _ => { next with sentAt := h.peerAt }
  | .heard _ => { next with readAt := h.sentAt }
  | .status _ =>
      if next.loop.power = h.loop.power then next
      else
        let up := decide (h.loop.power < next.loop.power)
        { next with
          lastMove := some up
          reversals := if h.lastMove = some (!up) then h.reversals + 1 else h.reversals
          turned := if h.readAt.isSome then some up else h.turned }

/-- Neither end has been unheard for too long when it matters. -/
def Audible (h : Hunt) : PowerEvent → Prop
  | .reported now => silentAt now h.loop.peerLastRx = false
  | .status now => h.loop.due now = true → silentAt now h.loop.lastRx = false
  | _ => True

instance (h : Hunt) (event : PowerEvent) : Decidable (h.Audible event) :=
  match event with
  | .reported _ => inferInstanceAs (Decidable (_ = _))
  | .status _ => inferInstanceAs (Decidable (_ → _))
  | .measured _ | .heard _ => inferInstanceAs (Decidable True)

/-- A change made on a report does not carry the margin past the far end of the band. -/
def Contained (config : PowerConfig) (gain : ℚ) (h : Hunt) : PowerEvent → Prop
  | .status now =>
      h.loop.due now = true → h.readAt.isSome = true →
        ∀ up, Asks up (h.loop.auxRx - config.floor) → Allows up h.loop.power →
          Short config gain up (changed up h.loop.power)
  | _ => True

/-- In the band, or out of it at the limit. -/
def Resting (config : PowerConfig) (gain : ℚ) (power : Int) : Prop :=
  ∀ up, Asks up (reportedMargin config gain power) → ¬Allows up power

variable {h : Hunt}

/-- A pass of the loop leaves the power alone or changes it as the held report asks. -/
theorem step_status (apwr : config.feat &&& featApwr ≠ 0) (lora : config.radio.phyFsk = false)
    {now : UInt32} (audible : h.Audible (.status now)) :
    ((h.loop.due now = true → ∀ up, Asks up (h.loop.auxRx - config.floor) →
        ¬Allows up h.loop.power) ∧
      ∃ statusAt, h.step config gain (.status now) =
        { h with loop := { h.loop with statusAt := statusAt } }) ∨
    ∃ up, h.loop.due now = true ∧ Asks up (h.loop.auxRx - config.floor) ∧
      Allows up h.loop.power ∧
      h.step config gain (.status now) =
        { h with
          loop := { h.loop with statusAt := now, power := changed up h.loop.power }
          lastMove := some up
          reversals := if h.lastMove = some (!up) then h.reversals + 1 else h.reversals
          turned := if h.readAt.isSome then some up else h.turned } := by
  cases due : h.loop.due now with
  | false =>
      refine Or.inl ⟨nofun, h.loop.statusAt, ?_⟩
      simp [step, PowerLoop.step, PowerLoop.maybeStatus, due]
  | true =>
      have heard := audible due
      rcases adjustTxPower_cases apwr lora h.loop.auxRx h.loop.power with
        ⟨up, asks, allows, moves⟩ | ⟨rests, stays⟩
      · refine Or.inr ⟨up, rfl, asks, allows, ?_⟩
        have direction : decide (h.loop.power < changed up h.loop.power) = up := by
          cases up <;> simp [changed, autoPwrStepDb]
        simp [step, PowerLoop.step, PowerLoop.maybeStatus, due, heard, moves, changed_ne,
          direction]
      · refine Or.inl ⟨fun _ => rests, now, ?_⟩
        simp [step, PowerLoop.step, PowerLoop.maybeStatus, due, heard, stays]

/-! ### The invariant -/

/-- The SNR of a measurement, or of none. -/
def snrOf (gain : ℚ) : Option Int → ℚ
  | none => 0
  | some p => p + gain

/-- The direction a loop without reports moves in, if it moves. -/
def openingUp (config : PowerConfig) : Bool :=
  decide (Asks true (snrToAux 0 - config.floor))

/-- What the registers hold is what they are about. -/
structure Matches (gain : ℚ) (h : Hunt) : Prop where
  peer : h.loop.peerSnr = snrOf gain h.peerAt
  sent : h.loop.auxTx = snrToAux (snrOf gain h.sentAt)
  read : h.loop.auxRx = snrToAux (snrOf gain h.readAt)
  filledSent : h.readAt.isSome → h.sentAt.isSome
  filledPeer : h.sentAt.isSome → h.peerAt.isSome
  inside : apPwrFloorDbm - 1 ≤ h.loop.power ∧ h.loop.power ≤ kTxPowerDbm + 1

/-- Before the first change on a report, the powers go one way. -/
structure Opening (dir : Bool) (h : Hunt) : Prop where
  reversals : h.reversals = 0
  lastMove : ∀ up ∈ h.lastMove, up = dir
  readSent : ∀ p ∈ h.readAt, ∀ q ∈ h.sentAt, Toward dir p q
  readPeer : ∀ p ∈ h.readAt, ∀ q ∈ h.peerAt, Toward dir p q
  sentPeer : ∀ p ∈ h.sentAt, ∀ q ∈ h.peerAt, Toward dir p q
  readPower : ∀ p ∈ h.readAt, Toward dir p h.loop.power
  sentPower : ∀ p ∈ h.sentAt, Toward dir p h.loop.power
  peerPower : ∀ p ∈ h.peerAt, Toward dir p h.loop.power

/-- After it, every power still in a report is short of the far end of the band. -/
structure Turned (config : PowerConfig) (gain : ℚ) (up : Bool) (h : Hunt) : Prop where
  reversals : h.reversals ≤ 1
  lastMove : h.lastMove = some up
  filled : h.readAt.isSome
  read : ∀ p ∈ h.readAt, Short config gain up p
  sent : ∀ p ∈ h.sentAt, Short config gain up p
  peer : ∀ p ∈ h.peerAt, Short config gain up p
  power : Short config gain up h.loop.power

structure Tracks (config : PowerConfig) (gain : ℚ) (h : Hunt) : Prop where
  regs : h.Matches gain
  opening : h.turned = none → h.Opening (openingUp config)
  turned : ∀ up ∈ h.turned, h.Turned config gain up

theorem tracks_boot {power : Int} (inside : apPwrFloorDbm ≤ power ∧ power ≤ kTxPowerDbm) :
    (boot power).Tracks config gain := by
  have zero : snrToAux 0 = 0 := by norm_num [snrToAux, lround]
  refine
    { regs :=
        { peer := rfl
          sent := zero.symm
          read := zero.symm
          filledSent := nofun
          filledPeer := nofun
          inside := ?_ }
      opening := fun _ =>
        { reversals := rfl
          lastMove := nofun
          readSent := nofun
          readPeer := nofun
          sentPeer := nofun
          readPower := nofun
          sentPower := nofun
          peerPower := nofun }
      turned := nofun }
  change apPwrFloorDbm - 1 ≤ power ∧ power ≤ kTxPowerDbm + 1
  omega

/-! ### One step -/

theorem Tracks.measured (tracks : h.Tracks config gain) (now : UInt32) :
    (h.step config gain (.measured now)).Tracks config gain where
  regs := { tracks.regs with
    peer := rfl
    filledPeer := fun _ => rfl }
  opening unturned := by
    have opening := tracks.opening unturned
    exact { opening with
      readPeer := by
        rintro p read _ ⟨⟩
        exact opening.readPower p read
      sentPeer := by
        rintro p sent _ ⟨⟩
        exact opening.sentPower p sent
      peerPower := by
        rintro _ ⟨⟩
        exact Toward.refl _ _ }
  turned up turned := by
    have was := tracks.turned up turned
    exact { was with
      peer := by
        rintro _ ⟨⟩
        exact was.power }

theorem Tracks.reported (tracks : h.Tracks config gain) {now : UInt32}
    (audible : h.Audible (.reported now)) :
    (h.step config gain (.reported now)).Tracks config gain where
  regs := { tracks.regs with
    sent := by
      change silentAt now h.loop.peerLastRx = false at audible
      change snrToAux (if silentAt now h.loop.peerLastRx then _ else _) = _
      rw [audible, if_neg Bool.false_ne_true, tracks.regs.peer]
      rfl
    filledSent := fun read => tracks.regs.filledPeer (tracks.regs.filledSent read)
    filledPeer := id }
  opening unturned := by
    have opening := tracks.opening unturned
    exact { opening with
      readSent := opening.readPeer
      sentPeer := by
        intro p peer q same
        obtain rfl : p = q := Option.some.inj (peer.symm.trans same)
        exact Toward.refl _ _
      sentPower := opening.peerPower }
  turned up turned := by
    have was := tracks.turned up turned
    exact { was with sent := was.peer }

theorem Tracks.heard (tracks : h.Tracks config gain) (now : UInt32) :
    (h.step config gain (.heard now)).Tracks config gain where
  regs := { tracks.regs with
    read := tracks.regs.sent
    filledSent := id }
  opening unturned := by
    have opening := tracks.opening unturned
    exact { opening with
      readSent := by
        intro p sent q same
        obtain rfl : p = q := Option.some.inj (sent.symm.trans same)
        exact Toward.refl _ _
      readPeer := opening.sentPeer
      readPower := opening.sentPower }
  turned up turned := by
    have was := tracks.turned up turned
    exact { was with
      filled := tracks.regs.filledSent was.filled
      read := was.sent }

/-- Without a report the loop moves as it opened. -/
theorem Tracks.unread (tracks : h.Tracks config gain) {up : Bool} (unread : h.readAt = none)
    (asks : Asks up (h.loop.auxRx - config.floor)) :
    h.turned = none ∧ up = openingUp config := by
  constructor
  · cases turned : h.turned with
    | none => rfl
    | some up =>
        have filled := (tracks.turned up turned).filled
        rw [unread] at filled
        cases filled
  · rw [tracks.regs.read, unread] at asks
    change Asks up (snrToAux 0 - config.floor) at asks
    unfold openingUp
    cases up with
    | true => exact (decide_eq_true asks).symm
    | false => exact (decide_eq_false asks.not_other).symm

/-- A report that asks for a change is of a power short of the far end, as is every report
that comes after it. -/
theorem Tracks.turn (tracks : h.Tracks config gain) {up : Bool} {p : Int}
    (read : h.readAt = some p) (asks : Asks up (h.loop.auxRx - config.floor))
    (short : Short config gain up (changed up h.loop.power)) :
    (∀ last ∈ h.turned, last = up) ∧ (∀ q ∈ h.readAt, Short config gain up q) ∧
      (∀ q ∈ h.sentAt, Short config gain up q) ∧ ∀ q ∈ h.peerAt, Short config gain up q := by
  rw [tracks.regs.read, read] at asks
  have here : Short config gain up p := Asks.not_other asks
  cases turned : h.turned with
  | some last =>
      have was := tracks.turned last turned
      obtain rfl : last = up := by
        by_contra other
        have otherUp : (!last) = up := by
          cases last <;> cases up <;> simp_all
        exact was.read p read (otherUp ▸ asks)
      refine ⟨?_, was.read, was.sent, was.peer⟩
      rintro _ ⟨⟩
      rfl
  | none =>
      have opening := tracks.opening turned
      -- Powers between the report and now lie towards the one or the other.
      have between : ∀ q, Toward (openingUp config) p q →
          Toward (openingUp config) q h.loop.power → Short config gain up q := by
        intro q after before
        by_cases along : openingUp config = up
        · rw [along] at before
          exact short.of_toward (before.trans (toward_changed _ _))
        · have back : (!openingUp config) = up := by
            revert along
            cases openingUp config <;> cases up <;> simp
          have toward := after.reverse
          rw [back] at toward
          exact here.of_toward toward
      refine ⟨nofun, ?_, ?_, ?_⟩
      · intro q same
        obtain rfl : p = q := Option.some.inj (read.symm.trans same)
        exact here
      · exact fun q sent => between q (opening.readSent p read q sent) (opening.sentPower q sent)
      · exact fun q peer => between q (opening.readPeer p read q peer) (opening.peerPower q peer)

theorem changed_inside {up : Bool} {power : Int} (allows : Allows up power)
    (inside : apPwrFloorDbm - 1 ≤ power ∧ power ≤ kTxPowerDbm + 1) :
    apPwrFloorDbm - 1 ≤ changed up power ∧ changed up power ≤ kTxPowerDbm + 1 := by
  have limits : kTxPowerDbm = 22 := rfl
  cases up <;> simp only [Allows, changed, autoPwrStepDb, apPwrFloorDbm, limits, if_true,
    Bool.false_eq_true, if_false] at * <;> omega

/-- A change in the opening direction keeps it. -/
theorem Opening.moved {dir : Bool} (opening : h.Opening dir) (now : UInt32)
    (turned : Option Bool) :
    ({ h with
      loop := { h.loop with statusAt := now, power := changed dir h.loop.power }
      lastMove := some dir
      reversals := if h.lastMove = some (!dir) then h.reversals + 1 else h.reversals
      turned := turned } : Hunt).Opening dir := by
  have onward : ∀ q, Toward dir q h.loop.power → Toward dir q (changed dir h.loop.power) :=
    fun q before => before.trans (toward_changed _ _)
  exact
    { opening with
      reversals := by
        dsimp only
        rw [if_neg, opening.reversals]
        intro against
        have along := opening.lastMove _ against
        cases dir <;> cases along
      lastMove := by
        rintro _ ⟨⟩
        rfl
      readPower := fun q read => onward q (opening.readPower q read)
      sentPower := fun q sent => onward q (opening.sentPower q sent)
      peerPower := fun q peer => onward q (opening.peerPower q peer) }

/-- A change on a report is the first one that turns the loop, or goes on its way. -/
theorem Tracks.reversals_le (tracks : h.Tracks config gain) {up : Bool}
    (same : ∀ last, h.turned = some last → last = up) :
    (if h.lastMove = some (!up) then h.reversals + 1 else h.reversals) ≤ 1 := by
  cases turned : h.turned with
  | none =>
      have none := (tracks.opening turned).reversals
      split <;> omega
  | some last =>
      obtain rfl := same last turned
      have was := tracks.turned last turned
      rw [was.lastMove, if_neg (by cases last <;> simp)]
      exact was.reversals

theorem Tracks.status (tracks : h.Tracks config gain) (apwr : config.feat &&& featApwr ≠ 0)
    (lora : config.radio.phyFsk = false) {now : UInt32} (audible : h.Audible (.status now))
    (contained : h.Contained config gain (.status now)) :
    (h.step config gain (.status now)).Tracks config gain := by
  rcases step_status apwr lora audible with ⟨-, statusAt, stays⟩ | ⟨up, due, asks, allows, moves⟩
  · rw [stays]
    exact
      { regs := { tracks.regs with }
        opening := fun unturned => { tracks.opening unturned with }
        turned := fun up turned => { tracks.turned up turned with } }
  · rw [moves]
    have regs : Matches gain { h with
        loop := { h.loop with statusAt := now, power := changed up h.loop.power } } :=
      { tracks.regs with inside := changed_inside allows tracks.regs.inside }
    rcases Option.eq_none_or_eq_some h.readAt with read | ⟨p, read⟩
    · -- Without a report the direction is the opening one.
      obtain ⟨unturned, rfl⟩ := tracks.unread read asks
      have opening := tracks.opening unturned
      exact
        { regs := { regs with }
          opening := fun _ => opening.moved now _
          turned := by
            intro last turned
            simp [unturned, read] at turned }
    · -- With one, it is the direction of every other change on a report.
      have short := contained due (by simp [read]) up asks allows
      obtain ⟨same, shortRead, shortSent, shortPeer⟩ := tracks.turn read asks short
      exact
        { regs := { regs with }
          opening := by
            intro unturned
            simp [read] at unturned
          turned := by
            intro last turned
            obtain rfl : up = last := by simpa [read] using turned
            exact
              { reversals := tracks.reversals_le same
                lastMove := rfl
                filled := by simp [read]
                read := shortRead
                sent := shortSent
                peer := shortPeer
                power := short } }

theorem Tracks.step (tracks : h.Tracks config gain) (apwr : config.feat &&& featApwr ≠ 0)
    (lora : config.radio.phyFsk = false) {event : PowerEvent} (audible : h.Audible event)
    (contained : h.Contained config gain event) : (h.step config gain event).Tracks config gain := by
  cases event with
  | measured now => exact tracks.measured now
  | reported now => exact tracks.reported audible
  | heard now => exact tracks.heard now
  | status now => exact tracks.status apwr lora audible contained

/-- A report at most two changes old never carries the margin past the far end. -/
theorem Tracks.contained_of_recent (tracks : h.Tracks config gain) {p : Int}
    (read : h.readAt = some p) (near : p - 4 ≤ h.loop.power ∧ h.loop.power ≤ p + 4)
    (event : PowerEvent) : h.Contained config gain event := by
  cases event with
  | status now =>
      intro _ _ up asks _
      rw [tracks.regs.read, read] at asks
      exact short_changed asks near
  | _ => trivial

/-! ### The room that is left -/

/-- How far the power can still go in a direction. -/
def room (up : Bool) (power : Int) : Nat :=
  if up then (kTxPowerDbm + 1 - power).toNat else (power - (apPwrFloorDbm - 1)).toNat

/-- Turning costs more than all the room there is. -/
def potential (config : PowerConfig) (h : Hunt) : Nat :=
  match h.turned with
  | none => 34 + room (openingUp config) h.loop.power
  | some up => room up h.loop.power

theorem room_lt {up : Bool} {power : Int}
    (inside : apPwrFloorDbm - 1 ≤ power ∧ power ≤ kTxPowerDbm + 1) : room up power < 34 := by
  have limits : kTxPowerDbm = 22 := rfl
  cases up <;> simp only [room, apPwrFloorDbm, limits, if_true, Bool.false_eq_true, if_false] at * <;>
    omega

theorem room_changed {up : Bool} {power : Int} (allows : Allows up power) :
    room up (changed up power) < room up power := by
  have limits : kTxPowerDbm = 22 := rfl
  cases up <;> simp only [Allows, room, changed, autoPwrStepDb, apPwrFloorDbm, limits, if_true,
    Bool.false_eq_true, if_false] at * <;> omega

/-- A change of power uses up room. -/
theorem Tracks.potential_step (tracks : h.Tracks config gain) (apwr : config.feat &&& featApwr ≠ 0)
    (lora : config.radio.phyFsk = false) {event : PowerEvent} (audible : h.Audible event)
    (contained : h.Contained config gain event) :
    ((h.step config gain event).loop.power = h.loop.power ∧
        (h.step config gain event).potential config = h.potential config) ∨
      (h.step config gain event).potential config < h.potential config := by
  cases event with
  | measured now | reported now | heard now => exact Or.inl ⟨rfl, rfl⟩
  | status now =>
      rcases step_status apwr lora audible with ⟨-, statusAt, stays⟩ | ⟨up, due, asks, allows, moves⟩
      · rw [stays]
        exact Or.inl ⟨rfl, rfl⟩
      · rw [moves]
        refine Or.inr ?_
        have less := room_changed allows
        rcases Option.eq_none_or_eq_some h.readAt with read | ⟨p, read⟩
        · obtain ⟨unturned, rfl⟩ := tracks.unread read asks
          simp only [potential, read, unturned, Option.isSome_none, Bool.false_eq_true, if_false]
          omega
        · have short := contained due (by simp [read]) up asks allows
          obtain ⟨same, -⟩ := tracks.turn read asks short
          have small := @room_lt up h.loop.power tracks.regs.inside
          simp only [potential, read, Option.isSome_some, if_true]
          cases turned : h.turned with
          | none =>
              dsimp only
              omega
          | some last =>
              obtain rfl := same last turned
              exact less

/-! ### Runs -/

variable {p : Int}

theorem step_peerAt (event : PowerEvent) (here : h.peerAt = some p) (power : h.loop.power = p) :
    (h.step config gain event).peerAt = some p := by
  cases event with
  | measured now => exact congrArg some power
  | reported now | heard now => exact here
  | status now =>
      unfold step
      dsimp only
      split <;> exact here

theorem step_sentAt (event : PowerEvent) (here : h.sentAt = some p) (peer : h.peerAt = some p) :
    (h.step config gain event).sentAt = some p := by
  cases event with
  | reported now => exact peer
  | measured now | heard now => exact here
  | status now =>
      unfold step
      dsimp only
      split <;> exact here

theorem step_readAt (event : PowerEvent) (here : h.readAt = some p) (sent : h.sentAt = some p) :
    (h.step config gain event).readAt = some p := by
  cases event with
  | heard now => exact sent
  | measured now | reported now => exact here
  | status now =>
      unfold step
      dsimp only
      split <;> exact here

/-- The loops of both ends keep running, and no end stays unheard. -/
structure Lively (config : PowerConfig) (gain : ℚ) (power : Int) (schedule : Nat → PowerEvent) :
    Prop where
  measured : ∀ n, ∃ m, n ≤ m ∧ ∃ now, schedule m = .measured now
  reported : ∀ n, ∃ m, n ≤ m ∧ ∃ now, schedule m = .reported now
  heard : ∀ n, ∃ m, n ≤ m ∧ ∃ now, schedule m = .heard now
  adjusts : ∀ n, ∃ m, n ≤ m ∧ ∃ now, schedule m = .status now ∧
    (trace (step config gain) (boot power) schedule m).loop.due now = true

/-- A power that does not change any more is measured, reported and read. -/
theorem eventually_read {power : Int} {schedule : Nat → PowerEvent}
    (lively : Lively config gain power schedule) {n : Nat}
    (kept : ∀ m, n ≤ m →
      (trace (step config gain) (boot power) schedule m).loop.power = p) :
    ∃ m, n ≤ m ∧ ∀ k, m ≤ k →
      (trace (step config gain) (boot power) schedule k).readAt = some p := by
  obtain ⟨m₁, after₁, peerAt⟩ := eventually_of_set (fun h : Hunt => h.peerAt = some p)
    (fun event => ∃ now, event = .measured now) (lively.measured n)
    (fun m later measured => by
      obtain ⟨now, measured⟩ := measured
      rw [trace_succ, measured]
      exact congrArg some (kept m later))
    fun m later here => step_peerAt _ here (kept m later)
  obtain ⟨m₂, after₂, sentAt⟩ := eventually_of_set (fun h : Hunt => h.sentAt = some p)
    (fun event => ∃ now, event = .reported now) (lively.reported m₁)
    (fun m later reported => by
      obtain ⟨now, reported⟩ := reported
      rw [trace_succ, reported]
      exact peerAt m later)
    fun m later here => step_sentAt _ here (peerAt m later)
  obtain ⟨m₃, after₃, readAt⟩ := eventually_of_set (fun h : Hunt => h.readAt = some p)
    (fun event => ∃ now, event = .heard now) (lively.heard m₂)
    (fun m later heard => by
      obtain ⟨now, heard⟩ := heard
      rw [trace_succ, heard]
      exact sentAt m later)
    fun m later here => step_readAt _ here (sentAt m later)
  exact ⟨m₃, (after₁.trans after₂).trans after₃, readAt⟩

/-- On a fixed path, with neither end unheard for too long, a loop none of whose changes
carries the margin across the band turns at most once and comes to rest. -/
theorem comes_to_rest (config : PowerConfig) (apwr : config.feat &&& featApwr ≠ 0)
    (lora : config.radio.phyFsk = false) (gain : ℚ) (power : Int)
    (inside : apPwrFloorDbm ≤ power ∧ power ≤ kTxPowerDbm) (schedule : Nat → PowerEvent)
    (audible : ∀ n, (trace (step config gain) (boot power) schedule n).Audible (schedule n))
    (lively : Lively config gain power schedule)
    (contained : ∀ n,
      (trace (step config gain) (boot power) schedule n).Contained config gain (schedule n)) :
    let run := trace (step config gain) (boot power) schedule
    (∀ n, (run n).reversals ≤ 1 ∧ apPwrFloorDbm - 1 ≤ (run n).loop.power ∧
        (run n).loop.power ≤ kTxPowerDbm + 1) ∧
      ∃ n, ∀ m, n ≤ m → (run m).loop.power = (run n).loop.power ∧
        Resting config gain (run m).loop.power := by
  intro run
  have tracks : ∀ n, (run n).Tracks config gain :=
    trace_invariant (Tracks config gain) (tracks_boot inside) fun n tracks =>
      tracks.step apwr lora (audible n) (contained n)
  refine ⟨fun n => ⟨?_, (tracks n).regs.inside⟩, ?_⟩
  · cases turned : (run n).turned with
    | none =>
        rw [((tracks n).opening turned).reversals]
        exact Nat.zero_le 1
    | some up => exact ((tracks n).turned up turned).reversals
  have moves := fun n => (tracks n).potential_step apwr lora (audible n) (contained n)
  have falls : ∀ n, (run (n + 1)).potential config ≤ (run n).potential config := by
    intro n
    rcases moves n with ⟨-, same⟩ | less
    · exact Nat.le_of_eq same
    · exact Nat.le_of_lt less
  obtain ⟨n, still⟩ := eventually_still (potential config) falls
  have stays : ∀ m, n ≤ m → (run (m + 1)).loop.power = (run m).loop.power := by
    intro m later
    rcases moves m with ⟨stays, -⟩ | less
    · exact stays
    · have same := (still (m + 1) (Nat.le_succ_of_le later)).trans (still m later).symm
      exact absurd same (Nat.ne_of_lt less)
  have power_eq : ∀ m, n ≤ m → (run m).loop.power = (run n).loop.power :=
    trace_from (fun h : Hunt => h.loop.power = (run n).loop.power) rfl fun m later same =>
      (stays m later).trans same
  refine ⟨n, fun m later => ⟨power_eq m later, ?_⟩⟩
  rw [power_eq m later]
  -- The last power is measured, reported and read, and then asks for no change.
  obtain ⟨read, after, readAt⟩ := eventually_read lively power_eq
  obtain ⟨m, later, now, status, due⟩ := lively.adjusts read
  have late : n ≤ m := after.trans later
  have heldPower := stays m late
  have hears := audible m
  change ((run m).step config gain (schedule m)).loop.power = _ at heldPower
  change (run m).Audible (schedule m) at hears
  rw [status] at heldPower hears
  rcases step_status apwr lora hears with ⟨rests, -⟩ | ⟨up, -, -, -, change⟩
  · have report := (tracks m).regs.read
    rw [readAt m later] at report
    intro up asks
    rw [← power_eq m late]
    exact rests due up (by rw [report]; exact asks)
  · rw [change] at heldPower
    exact absurd heldPower (changed_ne _ _)

/-! ### Two ends on 'medium' -/

/-- 'medium' with auto-power on. -/
def mediumPower : PowerConfig where
  feat := featApwr
  radio := .setup ⟨7, 1, 5⟩ ⟨7, 1, 5⟩

/-- Four adjustments on one report of 10 dBm, four on one of 2 dBm, and again: neither end
is unheard for three seconds. -/
def huntingTurns : List PowerEvent :=
  [.measured 100, .reported 150, .heard 200, .status 1500, .status 3000,
    .reported 3050, .heard 3060, .measured 3090, .status 4500, .status 6000,
    .reported 6055, .heard 6060, .measured 6080, .status 7500, .reported 7600, .heard 7650,
    .measured 8990, .status 9000, .status 10500, .reported 10590, .heard 10600,
    .reported 11980, .heard 11985, .measured 11990, .status 12000, .status 13500,
    .measured 13600, .reported 13700, .heard 13800, .status 15000]

theorem keeps_hunting :
    Along (step mediumPower (-5)) Audible (boot 10) huntingTurns ∧
      (huntingTurns.foldl (step mediumPower (-5)) (boot 10)).reversals = 2 := by
  decide +kernel

/-- One turn of each end in every status period. -/
def steadyTurns (n : Nat) : PowerEvent :=
  let now := UInt32.ofNat (1500 * (n / 4 + 1))
  match n % 4 with
  | 0 => .measured now
  | 1 => .reported now
  | 2 => .heard now
  | _ => .status now

/-- Both ends at 10 dBm with the margin in the band, at the end of a period. -/
def resting (now : UInt32) (about : Option Int) : Hunt where
  loop := { PowerLoop.boot 10 with statusAt := now, lastRx := now, peerLastRx := now }
  peerAt := about
  sentAt := about
  readAt := about
  lastMove := none
  reversals := 0
  turned := none

theorem silentAt_self (now : UInt32) : silentAt now now = false := by
  unfold silentAt
  rw [UInt32.sub_self]
  decide

theorem steady_period (before now : UInt32) (about : Option Int)
    (due : ¬now - before < statusPeriodMs) :
    [PowerEvent.measured now, .reported now, .heard now, .status now].foldl
      (step mediumPower (-10)) (resting before about) = resting now (some 10) := by
  have snr : ((10 : Int) : ℚ) + -10 = 0 := by norm_num
  have byte : snrToAux 0 = 0 := by norm_num [snrToAux, lround]
  have rest : adjustTxPower mediumPower 0 false 10 = 10 := by decide +kernel
  simp only [List.foldl_cons, List.foldl_nil, step, PowerLoop.step, PowerLoop.maybeStatus,
    PowerLoop.due, resting, PowerLoop.boot, silentAt_self, snr, byte, rest, due, decide_false,
    Bool.not_false, Bool.false_eq_true, if_false, if_true]

/-- The four events of a period. -/
theorem steadyTurns_period (periods : Nat) :
    let now := UInt32.ofNat (1500 * (periods + 1))
    steadyTurns (4 * periods) = .measured now ∧ steadyTurns (4 * periods + 1) = .reported now ∧
      steadyTurns (4 * periods + 2) = .heard now ∧ steadyTurns (4 * periods + 3) = .status now := by
  have quotient : ∀ r < 4, (4 * periods + r) / 4 = periods := by omega
  have remainder : ∀ r < 4, (4 * periods + r) % 4 = r := by omega
  have parts : ∀ r < 4, steadyTurns (4 * periods + r) =
      match r with
      | 0 => .measured (UInt32.ofNat (1500 * (periods + 1)))
      | 1 => .reported (UInt32.ofNat (1500 * (periods + 1)))
      | 2 => .heard (UInt32.ofNat (1500 * (periods + 1)))
      | _ => .status (UInt32.ofNat (1500 * (periods + 1))) := by
    intro r small
    unfold steadyTurns
    rw [quotient r small, remainder r small]
  exact ⟨parts 0 (by decide), parts 1 (by decide), parts 2 (by decide), parts 3 (by decide)⟩

theorem status_period (periods : Nat) :
    ¬UInt32.ofNat (1500 * (periods + 1)) - UInt32.ofNat (1500 * periods) < statusPeriodMs := by
  rw [Nat.mul_add_one, UInt32.ofNat_add, UInt32.add_comm, UInt32.add_sub_cancel]
  decide

theorem trace_steady (periods : Nat) : ∃ about,
    trace (step mediumPower (-10)) (boot 10) steadyTurns (4 * periods) =
      resting (UInt32.ofNat (1500 * periods)) about := by
  induction periods with
  | zero => exact ⟨none, rfl⟩
  | succ periods inductionHypothesis =>
      obtain ⟨about, before⟩ := inductionHypothesis
      obtain ⟨measured, reported, heard, status⟩ := steadyTurns_period periods
      have later : 4 * (periods + 1) = 4 * periods + 3 + 1 := by omega
      refine ⟨some 10, ?_⟩
      rw [later, trace_succ, trace_succ, trace_succ, trace_succ, before, measured, reported, heard,
        status]
      have period := steady_period _ _ about (status_period periods)
      simp only [List.foldl_cons, List.foldl_nil] at period
      exact period

/-- What an event of the schedule meets, by its place in the period. -/
theorem steady_cases {holds : Hunt → PowerEvent → Prop}
    (measured : ∀ h now, holds h (.measured now))
    (reported : ∀ before now about,
      holds (step mediumPower (-10) (resting before about) (.measured now)) (.reported now))
    (heard : ∀ h now, holds h (.heard now))
    (status : ∀ before now about, ¬now - before < statusPeriodMs →
      holds ([PowerEvent.measured now, .reported now, .heard now].foldl
        (step mediumPower (-10)) (resting before about)) (.status now)) (n : Nat) :
    holds (trace (step mediumPower (-10)) (boot 10) steadyTurns n) (steadyTurns n) := by
  obtain ⟨about, before⟩ := trace_steady (n / 4)
  obtain ⟨first, second, third, fourth⟩ := steadyTurns_period (n / 4)
  have place : n = 4 * (n / 4) ∨ n = 4 * (n / 4) + 1 ∨ n = 4 * (n / 4) + 2 ∨
      n = 4 * (n / 4) + 3 := by omega
  generalize n / 4 = periods at *
  rcases place with rfl | rfl | rfl | rfl
  · rw [first]
    exact measured _ _
  · rw [second, trace_succ, before, first]
    exact reported _ _ _
  · rw [third]
    exact heard _ _
  · rw [fourth, trace_succ, trace_succ, trace_succ, before, first, second, third]
    exact status _ _ _ (status_period periods)

theorem resting_heard (before now : UInt32) (about : Option Int) :
    let h := [PowerEvent.measured now, .reported now, .heard now].foldl
      (step mediumPower (-10)) (resting before about)
    h.loop.auxRx = 0 ∧ h.loop.lastRx = now ∧ h.loop.statusAt = before := by
  have byte : snrToAux 0 = 0 := by norm_num [snrToAux, lround]
  simp [List.foldl_cons, List.foldl_nil, step, PowerLoop.step, resting, PowerLoop.boot,
    silentAt_self, byte]

/-- Every pass of the loop in the schedule adjusts. -/
def Adjusts (h : Hunt) (event : PowerEvent) : Prop :=
  ∀ now, event = .status now → h.loop.due now = true

theorem steady_adjusts (n : Nat) :
    (trace (step mediumPower (-10)) (boot 10) steadyTurns n).Adjusts (steadyTurns n) := by
  refine steady_cases (fun _ _ => nofun) (fun _ _ _ => nofun) (fun _ _ => nofun) ?_ n
  rintro before now about due _ ⟨⟩
  obtain ⟨-, -, last⟩ := resting_heard before now about
  rw [PowerLoop.due, last, decide_eq_false due]
  rfl

theorem steady_lively : Lively mediumPower (-10) 10 steadyTurns where
  measured n := ⟨4 * n, by omega, _, (steadyTurns_period n).1⟩
  reported n := ⟨4 * n + 1, by omega, _, (steadyTurns_period n).2.1⟩
  heard n := ⟨4 * n + 2, by omega, _, (steadyTurns_period n).2.2.1⟩
  adjusts n := by
    have status := (steadyTurns_period n).2.2.2
    exact ⟨4 * n + 3, by omega, _, status, steady_adjusts (4 * n + 3) _ status⟩

theorem comes_to_rest_steady :
    let run := trace (step mediumPower (-10)) (boot 10) steadyTurns
    (∀ n, (run n).reversals ≤ 1 ∧ apPwrFloorDbm - 1 ≤ (run n).loop.power ∧
        (run n).loop.power ≤ kTxPowerDbm + 1) ∧
      ∃ n, ∀ m, n ≤ m → (run m).loop.power = (run n).loop.power ∧
        Resting mediumPower (-10) (run m).loop.power :=
  comes_to_rest mediumPower (by decide) (by decide) (-10) 10 (by decide) steadyTurns
    (steady_cases (fun _ _ => trivial) (fun before now about => silentAt_self now)
      (fun _ _ => trivial) fun before now about _ => by
        obtain ⟨-, heard, -⟩ := resting_heard before now about
        intro _
        rw [heard]
        exact silentAt_self now)
    steady_lively
    (steady_cases (fun _ _ => trivial) (fun _ _ _ => trivial)
      (fun _ _ => trivial) fun before now about _ => by
        obtain ⟨reads, -, -⟩ := resting_heard before now about
        have quiet : ∀ up, ¬Asks up (0 - mediumPower.floor) := by decide +kernel
        intro _ _ up asks
        rw [reads] at asks
        exact absurd asks (quiet up))

end Hunt

end LoraSerial.Device
