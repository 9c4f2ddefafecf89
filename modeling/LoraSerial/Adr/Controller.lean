import LoraSerial.Adr.Ladder

/-!
Owns the tick of the adaptive data rate: the fallback, the decision with every return, and
the one list of what a tick can do.
-/

namespace LoraSerial.Adr

structure Config (F : Type) where
  periodMs : UInt32
  upStable : Int
  downRetxPct : Int
  upMaxRetxPct : Int
  gfskUpRssi : F
  switchTimeoutMs : UInt32
  cooldownMs : UInt32
  gfskEnabled : Bool
  fallbackPenaltyMs : UInt32

inductive Action where
  | none
  | request (mode : Option Nat)
  | abort
deriving DecidableEq, Repr

/-- What the firmware gathers for a tick. A loss of -1 is too few frames. -/
structure In (F : Type) where
  now : UInt32
  busy : Bool
  haveLink : Bool
  cur : Option Nat
  snr : F
  rssi : F
  retxPct : Int

structure Controller (F : Type) where
  ladder : Ladder F
  cfg : Config F
  last : UInt32
  switchAt : UInt32
  cooldownUntil : UInt32
  want : Option Nat
  stable : Nat
  penalized : Option Nat
  penalizedUntil : UInt32

namespace Controller

variable {F : Type}

/-- `Begin` -/
def fresh (ladder : Ladder F) (cfg : Config F) : Controller F where
  ladder := ladder
  cfg := cfg
  last := 0
  switchAt := 0
  cooldownUntil := 0
  want := none
  stable := 0
  penalized := none
  penalizedUntil := 0

def commit (c : Controller F) (now : UInt32) (mode : Option Nat) : Action × Controller F :=
  (.request mode, { c with switchAt := now, want := none, stable := 0 })

def onFallback (c : Controller F) (now : UInt32) (failedMode : Option Nat) : Controller F :=
  { c with
    cooldownUntil := now + c.cfg.cooldownMs
    penalized := failedMode
    penalizedUntil := now + c.cfg.fallbackPenaltyMs
    want := none
    stable := 0 }

/-! ### Kinds of ticks -/

def coolingDown (c : Controller F) (now : UInt32) : Bool :=
  now < c.cooldownUntil

/-- The flap guard is up. -/
def guarding (c : Controller F) (now : UInt32) : Bool :=
  c.penalized.isSome && now < c.penalizedUntil

def lossy (c : Controller F) (i : In F) : Bool :=
  c.cfg.downRetxPct ≤ i.retxPct

/-- The tick is past the cadence check. -/
def Evaluates (c : Controller F) (i : In F) : Prop :=
  ¬i.now - c.last < c.cfg.periodMs

instance (c : Controller F) (i : In F) : Decidable (c.Evaluates i) :=
  inferInstanceAs (Decidable (¬_))

/-- The tick knows a current mode, with the link up and nothing in flight. -/
structure Listens (c : Controller F) (coolingDown : Bool) (i : In F) (cur : Nat) : Prop where
  evaluates : c.Evaluates i
  idle : i.busy = false
  warm : coolingDown = false
  link : i.haveLink = true
  current : i.cur = some cur

/-- The tick steps away from loss. -/
structure Flees (c : Controller F) (coolingDown : Bool) (i : In F) (cur : Nat) : Prop
    extends Listens c coolingDown i cur where
  loses : c.lossy i = true

/-- The tick goes by the signal. -/
structure Chooses (c : Controller F) (coolingDown : Bool) (i : In F) (cur : Nat) : Prop
    extends Listens c coolingDown i cur where
  clean : c.lossy i = false
  lora : c.ladder.fskAt cur = false

/-- The tick is evaluated and ends with nothing decided and nothing counted. -/
inductive Pauses (c : Controller F) (coolingDown : Bool) (i : In F) : Prop
  | waits (evaluates : c.Evaluates i) (busy : i.busy = true)
      (early : ¬c.cfg.switchTimeoutMs < i.now - c.switchAt)
  | rests (evaluates : c.Evaluates i) (idle : i.busy = false)
      (deaf : coolingDown = true ∨ i.haveLink = false ∨ i.cur = none)
  | endures {cur : Nat} (flees : c.Flees coolingDown i cur)
      (stays : c.ladder.moreRobust cur = some cur)
  | onFsk {cur : Nat} (listens : c.Listens coolingDown i cur) (clean : c.lossy i = false)
      (fsk : c.ladder.fskAt cur = true)

theorem Pauses.evaluates {c : Controller F} {coolingDown : Bool} {i : In F}
    (pauses : c.Pauses coolingDown i) : c.Evaluates i := by
  cases pauses with
  | waits evaluates | rests evaluates => exact evaluates
  | endures flees => exact flees.evaluates
  | onFsk listens => exact listens.evaluates

/-- A tick that goes by the signal does not pause. -/
theorem Chooses.not_pauses {c : Controller F} {coolingDown : Bool} {i : In F} {cur : Nat}
    (chooses : c.Chooses coolingDown i cur) : ¬c.Pauses coolingDown i := by
  intro pauses
  cases pauses with
  | waits evaluates busy early =>
      rw [chooses.idle] at busy
      cases busy
  | rests evaluates idle deaf =>
      rw [chooses.warm, chooses.link, chooses.current] at deaf
      simp at deaf
  | endures flees stays =>
      have loses := flees.loses
      rw [chooses.clean] at loses
      cases loses
  | onFsk listens clean fsk =>
      obtain rfl := Option.some.inj (listens.current.symm.trans chooses.current)
      rw [chooses.lora] at fsk
      cases fsk

/-! ### The decision -/

variable [Add F] [LE F] [DecidableLE F]

/-- The opt-in GFSK rung: from the fastest LoRa preset, on a strong link without loss. -/
def gfskGate (c : Controller F) (i : In F) (cur : Nat) : Bool :=
  c.cfg.gfskEnabled && c.ladder.ludicrous.isSome && some cur == c.ladder.fastestAutoLora &&
    decide (c.cfg.gfskUpRssi ≤ i.rssi) && decide (i.retxPct ≤ c.cfg.upMaxRetxPct)

/-- What the signal asks for. -/
def wanted (c : Controller F) (i : In F) (cur : Nat) : Option Nat :=
  if c.gfskGate i cur then c.ladder.ludicrous else c.ladder.pickBySnr i.snr

/-- The flap guard caps a target at or above the failed mode. -/
def capped (c : Controller F) (guarding : Bool) (pick : Option Nat) : Option Nat :=
  match c.penalized with
  | none => pick
  | some failed =>
      if guarding && c.ladder.rank (some failed) ≤ c.ladder.rank pick then
        c.ladder.moreRobust failed
      else pick

/-- The count of ticks in a row that ask for `pick`, with this one. -/
def counted (c : Controller F) (pick : Option Nat) : Nat :=
  if pick = c.want then c.stable + 1 else 1

/-- The end of `Decide`: stay, climb after enough ticks, or retreat at once. -/
def choose (c : Controller F) (i : In F) (cur : Nat) (pick : Option Nat) :
    Action × Controller F :=
  if pick = some cur then (.none, { c with want := none, stable := 0 })
  else if c.ladder.faster pick (some cur) then
    if c.cfg.upMaxRetxPct < i.retxPct then (.none, { c with want := none, stable := 0 })
    else
      let c := { c with want := pick, stable := c.counted pick }
      if c.cfg.upStable ≤ c.stable then c.commit i.now pick else (.none, c)
  else c.commit i.now pick

/-- `Decide`, given what the two deadlines say. -/
def decideBy (c : Controller F) (coolingDown guarding : Bool) (i : In F) :
    Action × Controller F :=
  if i.now - c.last < c.cfg.periodMs then (.none, c)
  else
    let c := { c with last := i.now }
    if i.busy then
      if c.cfg.switchTimeoutMs < i.now - c.switchAt then
        (.abort, { c with cooldownUntil := i.now + c.cfg.cooldownMs, want := none, stable := 0 })
      else (.none, c)
    else if coolingDown || !i.haveLink then (.none, c)
    else
      match i.cur with
      | none => (.none, c)
      | some cur =>
          if c.lossy i then
            let robust := c.ladder.moreRobust cur
            if robust ≠ some cur then c.commit i.now robust else (.none, c)
          else if c.ladder.fskAt cur then (.none, c)
          else c.choose i cur (c.capped guarding (c.wanted i cur))

def decide (c : Controller F) (i : In F) : Action × Controller F :=
  c.decideBy (c.coolingDown i.now) (c.guarding i.now) i

/-! ### What a tick can do -/

/-- Every return of `Decide`. -/
inductive Branch (c : Controller F) (coolingDown guarding : Bool) (i : In F) :
    Action → Controller F → Prop
  | early (soon : i.now - c.last < c.cfg.periodMs) : Branch c coolingDown guarding i .none c
  | aborts (evaluates : c.Evaluates i) (busy : i.busy = true)
      (late : c.cfg.switchTimeoutMs < i.now - c.switchAt) :
      Branch c coolingDown guarding i .abort
        { c with
          last := i.now
          cooldownUntil := i.now + c.cfg.cooldownMs
          want := none
          stable := 0 }
  | pauses (pauses : c.Pauses coolingDown i) :
      Branch c coolingDown guarding i .none { c with last := i.now }
  | flees {cur : Nat} (flees : c.Flees coolingDown i cur)
      (moves : c.ladder.moreRobust cur ≠ some cur) :
      Branch c coolingDown guarding i (.request (c.ladder.moreRobust cur))
        { c with last := i.now, switchAt := i.now, want := none, stable := 0 }
  | stays {cur : Nat} (chooses : c.Chooses coolingDown i cur)
      (there : c.capped guarding (c.wanted i cur) = some cur) :
      Branch c coolingDown guarding i .none { c with last := i.now, want := none, stable := 0 }
  | doubts {cur : Nat} (chooses : c.Chooses coolingDown i cur)
      (away : c.capped guarding (c.wanted i cur) ≠ some cur)
      (faster : c.ladder.faster (c.capped guarding (c.wanted i cur)) (some cur) = true)
      (loss : c.cfg.upMaxRetxPct < i.retxPct) :
      Branch c coolingDown guarding i .none { c with last := i.now, want := none, stable := 0 }
  | counts {cur : Nat} (chooses : c.Chooses coolingDown i cur)
      (away : c.capped guarding (c.wanted i cur) ≠ some cur)
      (faster : c.ladder.faster (c.capped guarding (c.wanted i cur)) (some cur) = true)
      (loss : ¬c.cfg.upMaxRetxPct < i.retxPct)
      (few : ¬c.cfg.upStable ≤ c.counted (c.capped guarding (c.wanted i cur))) :
      Branch c coolingDown guarding i .none
        { c with
          last := i.now
          want := c.capped guarding (c.wanted i cur)
          stable := c.counted (c.capped guarding (c.wanted i cur)) }
  | climbs {cur : Nat} (chooses : c.Chooses coolingDown i cur)
      (away : c.capped guarding (c.wanted i cur) ≠ some cur)
      (faster : c.ladder.faster (c.capped guarding (c.wanted i cur)) (some cur) = true)
      (loss : ¬c.cfg.upMaxRetxPct < i.retxPct)
      (enough : c.cfg.upStable ≤ c.counted (c.capped guarding (c.wanted i cur))) :
      Branch c coolingDown guarding i (.request (c.capped guarding (c.wanted i cur)))
        { c with last := i.now, switchAt := i.now, want := none, stable := 0 }
  | retreats {cur : Nat} (chooses : c.Chooses coolingDown i cur)
      (away : c.capped guarding (c.wanted i cur) ≠ some cur)
      (slower : c.ladder.faster (c.capped guarding (c.wanted i cur)) (some cur) = false) :
      Branch c coolingDown guarding i (.request (c.capped guarding (c.wanted i cur)))
        { c with last := i.now, switchAt := i.now, want := none, stable := 0 }

theorem branch_choose {c : Controller F} {coolingDown guarding : Bool} {i : In F} {cur : Nat}
    (chooses : c.Chooses coolingDown i cur) {decided : Action × Controller F}
    (same : ({ c with last := i.now } : Controller F).choose i cur
      (c.capped guarding (c.wanted i cur)) = decided) :
    c.Branch coolingDown guarding i decided.1 decided.2 := by
  subst same
  unfold choose
  split
  next there => exact .stays chooses there
  next away =>
    split
    next faster =>
      split
      next loss => exact .doubts chooses away faster loss
      next loss =>
        dsimp only
        split
        next enough => exact .climbs chooses away faster loss enough
        next few => exact .counts chooses away faster loss few
    next slower => exact .retreats chooses away (Bool.eq_false_iff.mpr slower)

theorem branch_decideBy (c : Controller F) (coolingDown guarding : Bool) (i : In F) :
    c.Branch coolingDown guarding i (c.decideBy coolingDown guarding i).1
      (c.decideBy coolingDown guarding i).2 := by
  unfold decideBy
  split
  next soon => exact .early soon
  next evaluates =>
    dsimp only
    split
    next busy =>
      split
      next late => exact .aborts evaluates busy late
      next early => exact .pauses (.waits evaluates busy early)
    next idle =>
      have idle := Bool.eq_false_iff.mpr idle
      split
      next deaf =>
        rw [Bool.or_eq_true, Bool.not_eq_true'] at deaf
        exact .pauses (.rests evaluates idle (deaf.imp_right Or.inl))
      next hears =>
        rw [Bool.or_eq_true, Bool.not_eq_true', not_or, Bool.not_eq_true, Bool.not_eq_false]
          at hears
        split
        next unknown => exact .pauses (.rests evaluates idle (Or.inr (Or.inr unknown)))
        next cur current =>
          have listens : c.Listens coolingDown i cur :=
            ⟨evaluates, idle, hears.1, hears.2, current⟩
          split
          next loses =>
            split
            next moves => exact .flees ⟨listens, loses⟩ moves
            next stays => exact .pauses (.endures ⟨listens, loses⟩ (not_not.mp stays))
          next clean =>
            have clean := Bool.eq_false_iff.mpr clean
            split
            next fsk => exact .pauses (.onFsk listens clean fsk)
            next lora => exact branch_choose ⟨listens, clean, Bool.eq_false_iff.mpr lora⟩ rfl

theorem branch_decide (c : Controller F) (i : In F) :
    c.Branch (c.coolingDown i.now) (c.guarding i.now) i (c.decide i).1 (c.decide i).2 :=
  c.branch_decideBy _ _ i

theorem decideBy_of_pauses {c : Controller F} {coolingDown guarding : Bool} {i : In F}
    (pauses : c.Pauses coolingDown i) :
    c.decideBy coolingDown guarding i = (.none, { c with last := i.now }) := by
  unfold decideBy
  rw [if_neg pauses.evaluates]
  cases pauses with
  | waits evaluates busy early => simp [busy, early]
  | rests evaluates idle deaf =>
      rcases deaf with cooling | deaf | unknown
      · simp [idle, cooling]
      · simp [idle, deaf]
      · simp [idle, unknown]
  | endures flees stays =>
      have loses : ({ c with last := i.now } : Controller F).lossy i = true := flees.loses
      simp [flees.idle, flees.warm, flees.link, flees.current, loses, stays]
  | onFsk listens clean fsk =>
      have clean : ({ c with last := i.now } : Controller F).lossy i = false := clean
      simp [listens.idle, listens.warm, listens.link, listens.current, clean, fsk]

/-! ### Requests -/

/-- A faster target waits for enough ticks without loss. -/
def Confirms (c : Controller F) (i : In F) (cur : Nat) (pick : Option Nat) : Prop :=
  c.ladder.faster pick (some cur) = true →
    ¬c.cfg.upMaxRetxPct < i.retxPct ∧ c.cfg.upStable ≤ c.counted pick

variable {c : Controller F} {coolingDown guarding : Bool} {i : In F} {cur : Nat}

theorem decideBy_of_flees (flees : c.Flees coolingDown i cur) :
    c.decideBy coolingDown guarding i =
      if c.ladder.moreRobust cur ≠ some cur then
        ({ c with last := i.now } : Controller F).commit i.now (c.ladder.moreRobust cur)
      else (.none, { c with last := i.now }) := by
  have loses : ({ c with last := i.now } : Controller F).lossy i = true := flees.loses
  unfold decideBy
  rw [if_neg flees.evaluates]
  simp [flees.idle, flees.warm, flees.link, flees.current, loses]

theorem decideBy_of_chooses (chooses : c.Chooses coolingDown i cur) :
    c.decideBy coolingDown guarding i =
      ({ c with last := i.now } : Controller F).choose i cur
        (c.capped guarding (c.wanted i cur)) := by
  have clean : ({ c with last := i.now } : Controller F).lossy i = false := chooses.clean
  unfold decideBy
  rw [if_neg chooses.evaluates]
  simp only [chooses.idle, chooses.warm, chooses.link, chooses.current, clean, chooses.lora]
  rfl

/-- A tick asks for a mode when it steps away from loss, or when the capped signal target
is another mode and is confirmed. -/
theorem request_iff {mode : Option Nat} :
    (c.decideBy coolingDown guarding i).1 = .request mode ↔
      ∃ cur,
        (c.Flees coolingDown i cur ∧ c.ladder.moreRobust cur ≠ some cur ∧
            mode = c.ladder.moreRobust cur) ∨
          (c.Chooses coolingDown i cur ∧ c.capped guarding (c.wanted i cur) ≠ some cur ∧
            c.Confirms i cur (c.capped guarding (c.wanted i cur)) ∧
            mode = c.capped guarding (c.wanted i cur)) := by
  constructor
  · intro asked
    have branch := c.branch_decideBy coolingDown guarding i
    rw [asked] at branch
    generalize (c.decideBy coolingDown guarding i).2 = after at branch
    cases branch with
    | flees flees moves => exact ⟨_, Or.inl ⟨flees, moves, rfl⟩⟩
    | climbs chooses away faster loss enough =>
        exact ⟨_, Or.inr ⟨chooses, away, fun _ => ⟨loss, enough⟩, rfl⟩⟩
    | retreats chooses away slower =>
        refine ⟨_, Or.inr ⟨chooses, away, fun faster => ?_, rfl⟩⟩
        rw [slower] at faster
        cases faster
  · rintro ⟨cur, ⟨flees, moves, rfl⟩ | ⟨chooses, away, confirms, rfl⟩⟩
    · rw [decideBy_of_flees flees, if_pos moves]
      rfl
    · rw [decideBy_of_chooses chooses]
      generalize c.capped guarding (c.wanted i cur) = pick at away confirms
      unfold choose
      rw [if_neg away]
      split
      next faster =>
        obtain ⟨loss, enough⟩ := confirms faster
        rw [if_neg loss]
        exact congrArg Prod.fst (if_pos enough)
      next => rfl

/-! ### The cap -/

/-- The penalty of `failed` caps what the signal asks for. -/
def Caps (c : Controller F) (i : In F) (cur failed : Nat) : Prop :=
  c.penalized = some failed ∧ c.guarding i.now = true ∧
    c.ladder.rank (some failed) ≤ c.ladder.rank (c.wanted i cur)

theorem capped_of_caps {failed : Nat} (caps : c.Caps i cur failed) :
    c.capped (c.guarding i.now) (c.wanted i cur) = c.ladder.moreRobust failed := by
  obtain ⟨penalized, guarding, above⟩ := caps
  simp [capped, penalized, guarding, above]

omit [Add F] [LE F] [DecidableLE F] in
@[simp] theorem capped_false (c : Controller F) (pick : Option Nat) :
    c.capped false pick = pick := by
  unfold capped
  split <;> rfl

theorem capped_of_not_caps (free : ∀ failed, ¬c.Caps i cur failed) :
    c.capped (c.guarding i.now) (c.wanted i cur) = c.wanted i cur := by
  unfold capped
  split
  next => rfl
  next failed penalized =>
    split
    next caps =>
      rw [Bool.and_eq_true, decide_eq_true_iff] at caps
      exact absurd ⟨penalized, caps⟩ (free failed)
    next => rfl

/-! ### What a tick leaves alone -/

theorem decideBy_frame (c : Controller F) (coolingDown guarding : Bool) (i : In F) :
    (c.decideBy coolingDown guarding i).2.ladder = c.ladder ∧
      (c.decideBy coolingDown guarding i).2.cfg = c.cfg ∧
      (c.decideBy coolingDown guarding i).2.penalized = c.penalized ∧
      (c.decideBy coolingDown guarding i).2.penalizedUntil = c.penalizedUntil := by
  have branch := c.branch_decideBy coolingDown guarding i
  generalize (c.decideBy coolingDown guarding i).1 = action at branch
  generalize (c.decideBy coolingDown guarding i).2 = after at branch ⊢
  cases branch <;> exact ⟨rfl, rfl, rfl, rfl⟩

/-- Only a switch that times out arms the cool-down. -/
theorem cooldownUntil_decideBy (c : Controller F) (coolingDown guarding : Bool) {i : In F}
    (idle : i.busy = false) :
    (c.decideBy coolingDown guarding i).2.cooldownUntil = c.cooldownUntil := by
  have branch := c.branch_decideBy coolingDown guarding i
  generalize (c.decideBy coolingDown guarding i).1 = action at branch
  generalize (c.decideBy coolingDown guarding i).2 = after at branch ⊢
  cases branch with
  | aborts evaluates busy late =>
      rw [idle] at busy
      cases busy
  | _ => rfl

end Controller

/-! ### Runs -/

/-- A call on the controller; the firmware sets `gfsk_enabled` before each tick. -/
inductive Event (F : Type) where
  | tick (i : In F)
  | fallback (now : UInt32) (failedMode : Option Nat)
  | enableGfsk (enabled : Bool)

def Controller.step {F : Type} [Add F] [LE F] [DecidableLE F] (c : Controller F) :
    Event F → Controller F
  | .tick i => (c.decide i).2
  | .fallback now failedMode => c.onFallback now failedMode
  | .enableGfsk enabled => { c with cfg := { c.cfg with gfskEnabled := enabled } }

theorem Controller.step_ladder {F : Type} [Add F] [LE F] [DecidableLE F] (c : Controller F)
    (event : Event F) : (c.step event).ladder = c.ladder := by
  cases event with
  | tick i => exact (c.decideBy_frame (c.coolingDown i.now) (c.guarding i.now) i).1
  | fallback | enableGfsk => rfl

/-- A call at a true time in milliseconds: `millis()` is its low 32 bits. -/
def Event.at {F : Type} (event : Event F) (time : Nat) : Event F :=
  match event with
  | .tick i => .tick { i with now := UInt32.ofNat time }
  | .fallback _ failedMode => .fallback (UInt32.ofNat time) failedMode
  | .enableGfsk enabled => .enableGfsk enabled

/-- The radio's table, in half decibels. -/
def firmwareLadder : Ladder Int where
  count := 6
  snrFloor := fun i => [-10, -15, -15, -25, -40, 0].getD i 0
  isFsk := fun i => i == 5
  autoOk := some fun _ => true
  marginDb := 12

/-- The tuning of `Setup`, in half decibels. -/
def firmwareConfig : Config Int where
  periodMs := 3000
  upStable := 3
  downRetxPct := 25
  upMaxRetxPct := 8
  gfskUpRssi := -140
  switchTimeoutMs := 6000
  cooldownMs := 30000
  gfskEnabled := false
  fallbackPenaltyMs := 60000

end LoraSerial.Adr
