import LoraSerial.Device.AutoPower
import LoraSerial.Library.Run

/-!
Owns the limits of the power loop: the control law at the width of its powers, the steps
that pass a limit, and the limits that no run passes. The step of 2 dB is clamped only on
the way up in silence.
-/

namespace LoraSerial.Device

open Library.Run

/-- `AutoPowerStep` on powers of one signed byte. -/
def autoPowerStepInt8 (curTx : Int8) (peerSnr snrFloor : Int) (floorDbm maxDbm : Int8)
    (linkSilent : Bool) : Int8 :=
  if linkSilent then
    let curTx := if curTx < maxDbm then curTx + Int8.ofInt autoPwrStepDb else curTx
    if curTx > maxDbm then maxDbm else curTx
  else
    let margin := peerSnr - snrFloor
    if margin > autoPwrMarginHi ∧ curTx > floorDbm then curTx - Int8.ofInt autoPwrStepDb
    else if margin < autoPwrMarginLo ∧ curTx < maxDbm then curTx + Int8.ofInt autoPwrStepDb
    else curTx

/-- What one pass of the loop is told. -/
structure PowerInput where
  peerSnr : Int
  snrFloor : Int
  linkSilent : Bool
deriving DecidableEq, Repr

/-- A loop between two limits. -/
structure PowerLimits where
  floorDbm : Int8
  maxDbm : Int8
deriving DecidableEq, Repr

namespace PowerLimits

def step (limits : PowerLimits) (curTx : Int8) (input : PowerInput) : Int8 :=
  autoPowerStepInt8 curTx input.peerSnr input.snrFloor limits.floorDbm limits.maxDbm
    input.linkSilent

def Within (limits : PowerLimits) (power : Int8) : Prop :=
  limits.floorDbm ≤ power ∧ power ≤ limits.maxDbm

instance (limits : PowerLimits) (power : Int8) : Decidable (limits.Within power) :=
  inferInstanceAs (Decidable (_ ∧ _))

/-- Every power of the byte is between the limits. -/
def Full (limits : PowerLimits) : Prop :=
  limits.floorDbm = -128 ∧ limits.maxDbm = 127

instance (limits : PowerLimits) : Decidable limits.Full :=
  inferInstanceAs (Decidable (_ ∧ _))

/-- The pass would step over a limit: it eases off one above the floor, boosts one below
the maximum, or ramps up in silence one below a maximum that is the last power of the
byte. -/
def Oversteps (limits : PowerLimits) (power : Int8) (input : PowerInput) : Prop :=
  let margin := input.peerSnr - input.snrFloor
  ¬limits.Full ∧
    if input.linkSilent then power.toInt + 1 = limits.maxDbm.toInt ∧ limits.maxDbm = 127
    else
      autoPwrMarginHi < margin ∧ power.toInt = limits.floorDbm.toInt + 1 ∨
        margin < autoPwrMarginLo ∧ power.toInt + 1 = limits.maxDbm.toInt

instance (limits : PowerLimits) (power : Int8) (input : PowerInput) :
    Decidable (limits.Oversteps power input) := by
  unfold Oversteps
  infer_instance

variable {limits : PowerLimits} {power : Int8}

/-! ### One pass -/

theorem toInt_add_step (power : Int8) :
    (power + Int8.ofInt autoPwrStepDb).toInt =
      if power.toInt ≤ 125 then power.toInt + 2 else power.toInt - 254 := by
  have low := power.le_toInt
  have high := power.toInt_lt
  rw [Int8.toInt_add, show (Int8.ofInt autoPwrStepDb).toInt = 2 from by decide]
  simp only [Int.bmod]
  split <;> omega

theorem toInt_sub_step (power : Int8) :
    (power - Int8.ofInt autoPwrStepDb).toInt =
      if -126 ≤ power.toInt then power.toInt - 2 else power.toInt + 254 := by
  have low := power.le_toInt
  have high := power.toInt_lt
  rw [Int8.toInt_sub, show (Int8.ofInt autoPwrStepDb).toInt = 2 from by decide]
  simp only [Int.bmod]
  split <;> omega

/-- Away from the ends of the byte this is the law on whole numbers. -/
theorem toInt_autoPowerStepInt8 {curTx : Int8} (low : -126 ≤ curTx.toInt)
    (high : curTx.toInt ≤ 125) (peerSnr snrFloor : Int) (floorDbm maxDbm : Int8)
    (linkSilent : Bool) :
    (autoPowerStepInt8 curTx peerSnr snrFloor floorDbm maxDbm linkSilent).toInt =
      autoPowerStep curTx.toInt peerSnr snrFloor floorDbm.toInt maxDbm.toInt linkSilent := by
  have up := toInt_add_step curTx
  have down := toInt_sub_step curTx
  rw [if_pos high] at up
  rw [if_pos low] at down
  simp only [autoPowerStepInt8, autoPowerStep, Int8.lt_iff_toInt_lt, gt_iff_lt]
  split
  · by_cases below : curTx.toInt < maxDbm.toInt
    · rw [if_pos below, if_pos below, apply_ite Int8.toInt, up]
      rfl
    · rw [if_neg below, if_neg below, apply_ite Int8.toInt]
  · rw [apply_ite Int8.toInt, apply_ite Int8.toInt, up, down]
    rfl

theorem full_iff : limits.Full ↔
    limits.floorDbm.toInt = -128 ∧ limits.maxDbm.toInt = 127 := by
  rw [Full, ← Int8.toInt_inj, ← Int8.toInt_inj]
  exact Iff.rfl

theorem within_iff :
    limits.Within power ↔
      limits.floorDbm.toInt ≤ power.toInt ∧ power.toInt ≤ limits.maxDbm.toInt := by
  rw [Within, Int8.le_iff_toInt_le, Int8.le_iff_toInt_le]

/-- A pass keeps the power between the limits exactly when it does not step over one. -/
theorem within_step_iff (within : limits.Within power) (input : PowerInput) :
    limits.Within (limits.step power input) ↔ ¬limits.Oversteps power input := by
  have low := limits.floorDbm.le_toInt
  have high := limits.maxDbm.toInt_lt
  have up := toInt_add_step power
  have down := toInt_sub_step power
  have last : (127 : Int8).toInt = 127 := by decide
  rw [within_iff] at within ⊢
  simp only [Oversteps, full_iff, step, autoPowerStepInt8, Int8.lt_iff_toInt_lt, ← Int8.toInt_inj,
    gt_iff_lt, last, autoPwrMarginHi, autoPwrMarginLo]
  cases input.linkSilent with
  | true =>
      simp only [if_true]
      by_cases below : power.toInt < limits.maxDbm.toInt
      · rw [if_pos below]
        split <;> split at up <;> omega
      · rw [if_neg below, if_neg (by omega)]
        omega
  | false =>
      simp only [Bool.false_eq_true, if_false]
      split
      · split at down <;> omega
      · split
        · split at up <;> omega
        · omega

/-! ### Runs -/

/-- Where a run of passes ends. -/
def run (limits : PowerLimits) (start : Int8) (inputs : List PowerInput) : Int8 :=
  inputs.foldl limits.step start

@[simp] theorem run_nil (start : Int8) : limits.run start [] = start := rfl

@[simp] theorem run_cons (start : Int8) (input : PowerInput) (inputs : List PowerInput) :
    limits.run start (input :: inputs) = limits.run (limits.step start input) inputs := rfl

/-- A run from between the limits stays there at every step exactly when no pass of it
steps over one. -/
theorem within_run_iff {start : Int8} (within : limits.Within start)
    (inputs : List PowerInput) :
    (∀ before, before <+: inputs → limits.Within (limits.run start before)) ↔
      Along limits.step (fun power input => ¬limits.Oversteps power input) start inputs := by
  have agrees : ∀ power input, limits.Within power →
      (limits.Within (limits.step power input) ↔ ¬limits.Oversteps power input) :=
    fun _ input inside => within_step_iff inside input
  have keeps : ∀ power input, limits.Within power → ¬limits.Oversteps power input →
      limits.Within (limits.step power input) :=
    fun power input inside fine => (agrees power input inside).mpr fine
  exact forall_prefix_iff.trans
    ((and_iff_right within).trans (along_iff agrees keeps within inputs))

/-- The limits of the firmware. -/
def firmware : PowerLimits where
  floorDbm := -9
  maxDbm := 22

/-- A strong report in the fast mode. -/
def strongReport : PowerInput where
  peerSnr := 20
  snrFloor := -8
  linkSilent := false

/-- Fifteen passes on strong reports ease off from 22 to -8 dBm. -/
theorem within_run_iff_firmware :
    firmware.Within (firmware.run 22 (List.replicate 15 strongReport)) :=
  (within_run_iff (by decide) _).mpr (by decide +kernel) _ (List.prefix_refl _)

/-- The sixteenth goes on to -10 dBm. -/
theorem overstep_firmware :
    firmware.Within 22 ∧ firmware.run 22 (List.replicate 16 strongReport) = -10 ∧
      ¬∀ before, before <+: List.replicate 16 strongReport →
        firmware.Within (firmware.run 22 before) := by
  refine ⟨by decide, by decide +kernel, fun stays => ?_⟩
  have inside := stays _ (List.prefix_refl _)
  exact absurd inside (by decide +kernel)

/-! ### Limits that no run passes -/

/-- The distance from the floor is even. -/
def SameParity (limits : PowerLimits) (power : Int8) : Prop :=
  (power.toInt - limits.floorDbm.toInt) % 2 = 0

instance (limits : PowerLimits) (power : Int8) : Decidable (limits.SameParity power) :=
  inferInstanceAs (Decidable (_ = _))

/-- A pass between limits of one parity keeps to that parity. -/
theorem sameParity_step (even : limits.SameParity limits.maxDbm)
    (within : limits.Within power) (same : limits.SameParity power) (input : PowerInput) :
    limits.Within (limits.step power input) ∧ limits.SameParity (limits.step power input) := by
  have up := toInt_add_step power
  have down := toInt_sub_step power
  have last : (127 : Int8).toInt = 127 := by decide
  have fine : ¬limits.Oversteps power input := by
    simp only [SameParity, Oversteps, ← Int8.toInt_inj, last] at *
    split <;> omega
  refine ⟨(within_step_iff within input).mpr fine, ?_⟩
  simp only [SameParity, step, autoPowerStepInt8] at *
  split
  · by_cases below : power < limits.maxDbm
    · rw [if_pos below]
      split
      · exact even
      · split at up <;> omega
    · rw [if_neg below]
      split
      · exact even
      · exact same
  · split
    · split at down <;> omega
    · split
      · split at up <;> omega
      · exact same

/-- A report that asks the loop to ease off, and one that asks it to boost. -/
def reportAsking (ease : Bool) : PowerInput where
  peerSnr := if ease then 20 else -30
  snrFloor := 0
  linkSilent := false

/-- How far the loop is from the limit that it is asked toward. -/
def distance (limits : PowerLimits) (ease : Bool) (power : Int8) : Int :=
  if ease then power.toInt - limits.floorDbm.toInt else limits.maxDbm.toInt - power.toInt

theorem step_reportAsking {ease : Bool} (away : 0 < limits.distance ease power) :
    limits.step power (reportAsking ease) =
      if ease then power - Int8.ofInt autoPwrStepDb else power + Int8.ofInt autoPwrStepDb := by
  cases ease with
  | true =>
      have above : limits.floorDbm < power := by
        simp only [distance, if_true] at away
        exact Int8.lt_iff_toInt_lt.mpr (by omega)
      simp [step, autoPowerStepInt8, reportAsking, autoPwrMarginHi, above]
  | false =>
      have below : power < limits.maxDbm := by
        simp only [distance, Bool.false_eq_true, if_false] at away
        exact Int8.lt_iff_toInt_lt.mpr (by omega)
      simp [step, autoPowerStepInt8, reportAsking, autoPwrMarginHi, autoPwrMarginLo, below]

/-- Asked toward a limit at an odd distance, the loop passes it in the end. -/
theorem leaves_of_odd (narrow : ¬limits.Full) (ease : Bool) (steps : Nat) {start : Int8}
    (within : limits.Within start) (odd : limits.distance ease start = 2 * steps + 1) :
    ∃ inputs, ¬limits.Within (limits.run start inputs) := by
  induction steps generalizing start with
  | zero =>
      refine ⟨[reportAsking ease], ?_⟩
      rw [run_cons, run_nil, within_step_iff within, not_not]
      refine ⟨narrow, ?_⟩
      cases ease <;> simp [reportAsking, distance, autoPwrMarginHi, autoPwrMarginLo] at odd ⊢ <;>
        omega
  | succ steps inductionHypothesis =>
      have inside : limits.Within (limits.step start (reportAsking ease)) := by
        rw [within_step_iff within]
        rintro ⟨-, oversteps⟩
        cases ease <;>
          simp [reportAsking, distance, autoPwrMarginHi, autoPwrMarginLo] at odd oversteps <;>
          omega
      have closer : limits.distance ease (limits.step start (reportAsking ease)) =
          2 * steps + 1 := by
        have bounds := within_iff.mp within
        have low := limits.floorDbm.le_toInt
        have high := limits.maxDbm.toInt_lt
        have up := toInt_add_step start
        have down := toInt_sub_step start
        cases ease with
        | true =>
            rw [step_reportAsking (by omega), distance, if_pos rfl, if_pos rfl]
            rw [distance, if_pos rfl] at odd
            split at down <;> omega
        | false =>
            rw [step_reportAsking (by omega), distance, if_neg Bool.false_ne_true,
              if_neg Bool.false_ne_true]
            rw [distance, if_neg Bool.false_ne_true] at odd
            split at up <;> omega
      obtain ⟨inputs, outside⟩ := inductionHypothesis inside closer
      exact ⟨reportAsking ease :: inputs, outside⟩

/-- All runs from a start between the limits stay there exactly when the limits are the
whole byte, or the start and both limits have one parity. -/
theorem always_within_iff {start : Int8} (within : limits.Within start) :
    (∀ inputs, limits.Within (limits.run start inputs)) ↔
      limits.Full ∨ limits.SameParity start ∧ limits.SameParity limits.maxDbm := by
  constructor
  · intro stays
    by_contra breakable
    obtain ⟨narrow, uneven⟩ := not_or.mp breakable
    have bounds := within_iff.mp within
    have leaves (ease : Bool) (odd : limits.distance ease start % 2 = 1) : False := by
      have ahead : 0 ≤ limits.distance ease start := by
        cases ease <;> simp [distance] <;> omega
      obtain ⟨inputs, outside⟩ := leaves_of_odd narrow ease
        (limits.distance ease start / 2).toNat within (by omega)
      exact outside (stays inputs)
    by_cases same : limits.SameParity start
    · refine leaves false ?_
      simp only [SameParity, distance, Bool.false_eq_true, if_false] at same uneven ⊢
      omega
    · refine leaves true ?_
      simp only [SameParity, distance, if_true] at same ⊢
      omega
  · rintro (full | ⟨same, even⟩) inputs
    · have bounds := full_iff.mp full
      rw [within_iff, bounds.1, bounds.2]
      exact ⟨Int8.le_toInt _, Int.le_of_lt_add_one (Int8.toInt_lt _)⟩
    · induction inputs generalizing start with
      | nil => exact within
      | cons input rest inductionHypothesis =>
          obtain ⟨inside, kept⟩ := sameParity_step even within same input
          exact inductionHypothesis inside kept

/-- The limits of the firmware differ in parity, so no start is safe. -/
theorem firmware_unsafe {start : Int8} (within : firmware.Within start) :
    ∃ inputs, ¬firmware.Within (firmware.run start inputs) := by
  have breakable := mt (always_within_iff within).mp (by
    rintro (full | ⟨-, even⟩)
    · exact absurd full (by decide)
    · exact absurd even (by decide))
  exact not_forall.mp breakable

end PowerLimits

end LoraSerial.Device
