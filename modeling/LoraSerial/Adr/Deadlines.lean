import LoraSerial.Adr.Controller
import LoraSerial.Library.Run
import Mathlib.Algebra.GroupWithZero.Nat

/-!
Owns the two deadlines of the controller on a clock that wraps: when the cool-down stops
requests, and the penalty caps targets, for the time they should.
-/

namespace LoraSerial.Adr

open Library.Run

/-! ### A wrapping clock -/

/-- The clock has wrapped equally often at the time and at the deadline, or its reading
still falls on the right side. -/
def SameSide (time deadline : Nat) : Prop :=
  time / 2 ^ 32 = deadline / 2 ^ 32 ∨
    (time / 2 ^ 32 < deadline / 2 ^ 32 ∧ time % 2 ^ 32 < deadline % 2 ^ 32) ∨
    (deadline / 2 ^ 32 < time / 2 ^ 32 ∧ deadline % 2 ^ 32 ≤ time % 2 ^ 32)

instance (time deadline : Nat) : Decidable (SameSide time deadline) :=
  inferInstanceAs (Decidable (_ ∨ _))

/-- The comparison of the low words decides the comparison of the times. -/
theorem sameSide_iff (time deadline : Nat) :
    (time % 2 ^ 32 < deadline % 2 ^ 32 ↔ time < deadline) ↔ SameSide time deadline := by
  have timeParts := Nat.div_add_mod time (2 ^ 32)
  have deadlineParts := Nat.div_add_mod deadline (2 ^ 32)
  have timeLow := Nat.mod_lt time (Nat.two_pow_pos 32)
  have deadlineLow := Nat.mod_lt deadline (Nat.two_pow_pos 32)
  unfold SameSide
  omega

theorem ofNat_lt_deadline (time armed : Nat) (wait : UInt32) :
    UInt32.ofNat time < UInt32.ofNat armed + wait ↔
      time % 2 ^ 32 < (armed + wait.toNat) % 2 ^ 32 := by
  rw [UInt32.lt_iff_toNat_lt, UInt32.toNat_add, UInt32.toNat_ofNat', UInt32.toNat_ofNat',
    Nat.mod_add_mod]

variable {F : Type}

/-! ### What becomes of a target -/

namespace Controller

/-- The tick asks for the target, or counts toward it. -/
def Pursues (c : Controller F) (i : In F) (cur : Nat) (pick : Option Nat) : Prop :=
  pick ≠ some cur ∧
    (c.ladder.faster pick (some cur) = true → ¬c.cfg.upMaxRetxPct < i.retxPct)

/-- The target that a decision asks for or counts toward. -/
def pursued (decided : Action × Controller F) : Option (Option Nat) :=
  match decided.1 with
  | .request mode => some mode
  | _ => if decided.2.stable = 0 then none else some decided.2.want

variable {c : Controller F} {i : In F} {cur : Nat} {pick : Option Nat}

theorem choose_of_not_pursues (rests : ¬c.Pursues i cur pick) :
    c.choose i cur pick = (.none, { c with want := none, stable := 0 }) := by
  unfold choose
  split
  · rfl
  next away =>
    split
    next faster =>
      split
      · rfl
      next clean => exact absurd ⟨away, fun _ => clean⟩ rests
    next slower => exact absurd ⟨away, fun faster => absurd faster slower⟩ rests

theorem choose_of_pursues (pursues : c.Pursues i cur pick) :
    c.choose i cur pick = c.commit i.now pick ∨
      c.choose i cur pick = (.none, { c with want := pick, stable := c.counted pick }) := by
  unfold choose
  rw [if_neg pursues.1]
  split
  next faster =>
    rw [if_neg (pursues.2 faster)]
    dsimp only
    split
    · exact Or.inl rfl
    · exact Or.inr rfl
  · exact Or.inl rfl

theorem counted_pos (c : Controller F) (pick : Option Nat) : 0 < c.counted pick := by
  unfold counted
  split
  · exact Nat.succ_pos _
  · exact Nat.one_pos

theorem pursued_choose (pursues : c.Pursues i cur pick) :
    pursued (c.choose i cur pick) = some pick := by
  rcases choose_of_pursues pursues with asks | counts
  · rw [asks]
    rfl
  · rw [counts]
    exact if_neg (Nat.ne_of_gt (c.counted_pos pick))

theorem pursued_choose_of_not (rests : ¬c.Pursues i cur pick) :
    pursued (c.choose i cur pick) = none := by
  rw [choose_of_not_pursues rests]
  rfl

/-- Two targets come to the same when they are one, or neither is pursued. -/
theorem choose_eq_choose_iff {other : Option Nat} :
    c.choose i cur pick = c.choose i cur other ↔
      pick = other ∨ ¬c.Pursues i cur pick ∧ ¬c.Pursues i cur other := by
  constructor
  · intro same
    have goals := congrArg pursued same
    by_cases first : c.Pursues i cur pick <;> by_cases second : c.Pursues i cur other
    · rw [pursued_choose first, pursued_choose second] at goals
      exact Or.inl (Option.some.inj goals)
    · rw [pursued_choose first, pursued_choose_of_not second] at goals
      cases goals
    · rw [pursued_choose_of_not first, pursued_choose second] at goals
      cases goals
    · exact Or.inr ⟨first, second⟩
  · rintro (rfl | ⟨first, second⟩)
    · rfl
    · rw [choose_of_not_pursues first, choose_of_not_pursues second]

/-- A target leaves the controller alone when it is not pursued and no count runs. -/
theorem choose_eq_self_iff :
    c.choose i cur pick = (.none, c) ↔
      ¬c.Pursues i cur pick ∧ c.want = none ∧ c.stable = 0 := by
  constructor
  · intro same
    by_cases pursues : c.Pursues i cur pick
    · rcases choose_of_pursues pursues with asks | counts
      · rw [asks] at same
        cases congrArg Prod.fst same
      · rw [counts] at same
        have want : pick = c.want := congrArg (fun decided => decided.2.want) same
        have stable : c.counted pick = c.stable := congrArg (fun decided => decided.2.stable) same
        rw [counted, if_pos want] at stable
        omega
    · rw [choose_of_not_pursues pursues] at same
      exact ⟨pursues, (congrArg (fun decided => decided.2.want) same).symm,
        (congrArg (fun decided => decided.2.stable) same).symm⟩
  · rintro ⟨rests, want, stable⟩
    rw [choose_of_not_pursues rests, ← want, ← stable]

/-- The cap makes a difference when it moves the target and one of the two is pursued. -/
theorem choose_capped_iff {first second : Bool} :
    c.choose i cur (c.capped first pick) = c.choose i cur (c.capped second pick) ↔
      (c.capped true pick ≠ pick ∧
          (c.Pursues i cur (c.capped true pick) ∨ c.Pursues i cur pick) →
        first = second) := by
  rw [choose_eq_choose_iff]
  cases first <;> cases second <;> simp only [capped_false] <;> grind

end Controller

variable [Add F] [LE F] [DecidableLE F]

/-- A controller with the true times its deadlines were last armed. -/
structure Armed (F : Type) where
  c : Controller F
  cooldown : Option Nat
  penalty : Option Nat

namespace Armed

/-- A fallback from an unknown mode arms no penalty. -/
def step (a : Armed F) (timed : Nat × Event F) : Armed F where
  c := a.c.step (timed.2.at timed.1)
  cooldown :=
    match timed.2.at timed.1 with
    | .tick i => if (a.c.decide i).1 = .abort then some timed.1 else a.cooldown
    | .fallback _ _ => some timed.1
    | .enableGfsk _ => a.cooldown
  penalty :=
    match timed.2.at timed.1 with
    | .fallback _ failedMode => failedMode.map fun _ => timed.1
    | _ => a.penalty

/-- Less than `wait` after it was armed. -/
def Holds (armed : Option Nat) (wait : UInt32) (time : Nat) : Prop :=
  ∃ start ∈ armed, time < start + wait.toNat

instance (armed : Option Nat) (wait : UInt32) (time : Nat) : Decidable (Holds armed wait time) := by
  unfold Holds
  infer_instance

/-- The cool-down holds. -/
def Cools (a : Armed F) (time : Nat) : Prop :=
  Holds a.cooldown a.c.cfg.cooldownMs time

/-- The penalty holds. -/
def Guards (a : Armed F) (time : Nat) : Prop :=
  Holds a.penalty a.c.cfg.fallbackPenaltyMs time

instance (a : Armed F) (time : Nat) : Decidable (a.Cools time) :=
  inferInstanceAs (Decidable (Holds _ _ _))

instance (a : Armed F) (time : Nat) : Decidable (a.Guards time) :=
  inferInstanceAs (Decidable (Holds _ _ _))

/-- What the signal asks for, capped below the mode that failed while its penalty holds. -/
def target (a : Armed F) (time : Nat) (i : In F) (cur : Nat) : Option Nat :=
  match a.c.penalized with
  | none => a.c.wanted i cur
  | some failed =>
      if a.Guards time ∧ a.c.ladder.rank (some failed) ≤ a.c.ladder.rank (a.c.wanted i cur) then
        a.c.ladder.moreRobust failed
      else a.c.wanted i cur

/-- While the cool-down holds the tick asks for nothing. Else it is not held back: it steps
away from loss, or goes by the signal to the target that is capped while the penalty holds. -/
structure TimelyTick (a : Armed F) (time : Nat) (i : In F) : Prop where
  suppressed : a.Cools time → ∀ mode, (a.c.decide i).1 ≠ .request mode
  flees : ¬a.Cools time → ∀ cur, a.c.Flees false i cur → a.c.ladder.moreRobust cur ≠ some cur →
    (a.c.decide i).1 = .request (a.c.ladder.moreRobust cur)
  chooses : ¬a.Cools time → ∀ cur, a.c.Chooses false i cur →
    a.c.decide i = ({ a.c with last := i.now } : Controller F).choose i cur (a.target time i cur)

def Timely (a : Armed F) (timed : Nat × Event F) : Prop :=
  match timed.2.at timed.1 with
  | .tick i => a.TimelyTick timed.1 i
  | _ => True

/-- Whether it cools down makes a difference to the tick: it has loss to step away from, or a
signal target to ask for, or, once the cool-down is over, to count toward or to forget. -/
def CooldownMatters (a : Armed F) (time : Nat) (i : In F) (cur : Nat) : Prop :=
  a.c.Flees false i cur ∧ a.c.ladder.moreRobust cur ≠ some cur ∨
    a.c.Chooses false i cur ∧
      if a.Cools time then
        a.c.capped (a.c.guarding i.now) (a.c.wanted i cur) ≠ some cur ∧
          a.c.Confirms i cur (a.c.capped (a.c.guarding i.now) (a.c.wanted i cur))
      else a.c.Pursues i cur (a.target time i cur) ∨ a.c.want ≠ none ∨ a.c.stable ≠ 0

/-- Whether the penalty holds makes a difference to the tick: it goes by the signal, the cap
moves the target, and one of the two targets is pursued. -/
def PenaltyMatters (a : Armed F) (time : Nat) (i : In F) (cur : Nat) : Prop :=
  ¬a.Cools time ∧ a.c.Chooses (a.c.coolingDown i.now) i cur ∧
    a.c.capped true (a.c.wanted i cur) ≠ a.c.wanted i cur ∧
      (a.c.Pursues i cur (a.c.capped true (a.c.wanted i cur)) ∨
        a.c.Pursues i cur (a.c.wanted i cur))

/-- The tick is on the right side of each deadline that makes a difference to it. -/
structure TickAgrees (a : Armed F) (time : Nat) (i : In F) : Prop where
  cooldown : ∀ cur, a.CooldownMatters time i cur →
    ∀ start ∈ a.cooldown, SameSide time (start + a.c.cfg.cooldownMs.toNat)
  penalty : ∀ cur, a.PenaltyMatters time i cur →
    ∀ start ∈ a.penalty, SameSide time (start + a.c.cfg.fallbackPenaltyMs.toNat)

def ClockAgrees (a : Armed F) (timed : Nat × Event F) : Prop :=
  match timed.2.at timed.1 with
  | .tick i => a.TickAgrees timed.1 i
  | _ => True

/-! ### One step -/

/-- The stored deadlines are the ones last armed. -/
structure Stored (a : Armed F) : Prop where
  cooldown : a.c.cooldownUntil =
    match a.cooldown with
    | none => 0
    | some start => UInt32.ofNat start + a.c.cfg.cooldownMs
  penalized : a.c.penalized.isSome = a.penalty.isSome
  penalty : ∀ start ∈ a.penalty,
    a.c.penalizedUntil = UInt32.ofNat start + a.c.cfg.fallbackPenaltyMs

variable {a : Armed F} {timed : Nat × Event F} {time : Nat} {i : In F} {cur : Nat}

theorem Stored.step (stored : a.Stored) (timed : Nat × Event F) : (a.step timed).Stored := by
  obtain ⟨time, event⟩ := timed
  cases event with
  | tick i =>
      let i : In F := { i with now := UInt32.ofNat time }
      have branch := a.c.branch_decide i
      change Stored ⟨(a.c.decide i).2,
        if (a.c.decide i).1 = .abort then some time else a.cooldown, a.penalty⟩
      generalize (a.c.decide i).1 = action at branch ⊢
      generalize (a.c.decide i).2 = next at branch ⊢
      cases branch with
      | aborts => exact ⟨rfl, stored.penalized, stored.penalty⟩
      | _ => exact ⟨stored.cooldown, stored.penalized, stored.penalty⟩
  | fallback now failedMode =>
      refine ⟨rfl, ?_, ?_⟩
      · cases failedMode <;> rfl
      · intro start member
        cases failedMode with
        | none => cases member
        | some mode =>
            obtain rfl := Option.some.inj member
            rfl
  | enableGfsk enabled => exact ⟨stored.cooldown, stored.penalized, stored.penalty⟩

omit [Add F] [LE F] [DecidableLE F] in
theorem Stored.cooling_iff (stored : a.Stored) (time : Nat) :
    (a.c.coolingDown (UInt32.ofNat time) = true ↔ a.Cools time) ↔
      ∀ start ∈ a.cooldown, SameSide time (start + a.c.cfg.cooldownMs.toNat) := by
  have until_ := stored.cooldown
  unfold Controller.coolingDown Cools Holds
  cases armed : a.cooldown with
  | none =>
      rw [armed] at until_
      simp [until_]
  | some start =>
      rw [armed] at until_
      simp only [until_, Option.mem_some_iff, exists_eq_left', forall_eq', decide_eq_true_iff]
      rw [ofNat_lt_deadline]
      exact sameSide_iff _ _

omit [Add F] [LE F] [DecidableLE F] in
theorem Stored.guarding_iff (stored : a.Stored) (time : Nat) :
    (a.c.guarding (UInt32.ofNat time) = true ↔
        a.Guards time) ↔
      ∀ start ∈ a.penalty, SameSide time (start + a.c.cfg.fallbackPenaltyMs.toNat) := by
  have isSome := stored.penalized
  unfold Controller.guarding Guards Holds
  cases armed : a.penalty with
  | none =>
      rw [armed] at isSome
      simp [isSome]
  | some start =>
      have until_ := stored.penalty start armed
      rw [armed] at isSome
      simp only [isSome, until_, Option.isSome_some, Bool.true_and, Option.mem_some_iff,
        exists_eq_left', forall_eq', decide_eq_true_iff]
      rw [ofNat_lt_deadline]
      exact sameSide_iff _ _

theorem target_eq (a : Armed F) (time : Nat) (i : In F) (cur : Nat) :
    a.target time i cur = a.c.capped (decide (a.Guards time)) (a.c.wanted i cur) := by
  unfold target Controller.capped
  cases a.c.penalized with
  | none => rfl
  | some failed => simp only [Bool.and_eq_true, decide_eq_true_iff]

omit [Add F] [LE F] [DecidableLE F] in
theorem not_listens (cooling : a.c.coolingDown i.now = true) :
    ¬a.c.Listens (a.c.coolingDown i.now) i cur := by
  intro listens
  have warm := listens.warm
  rw [cooling] at warm
  cases warm

/-- In a cool-down that the code keeps too, a tick asks for nothing. -/
theorem no_request (cooling : a.c.coolingDown i.now = true) (mode : Option Nat) :
    (a.c.decide i).1 ≠ .request mode := by
  intro asks
  obtain ⟨cur, ⟨flees, -⟩ | ⟨chooses, -⟩⟩ := Controller.request_iff.mp asks
  · exact not_listens cooling flees.toListens
  · exact not_listens cooling chooses.toListens

/-- In a cool-down that the code misses, a tick asks for a mode when there is one to ask for. -/
theorem missed_iff (missed : a.c.coolingDown i.now = false) (cools : a.Cools time) :
    (∃ mode, (a.c.decide i).1 = .request mode) ↔ ∃ cur, a.CooldownMatters time i cur := by
  unfold Controller.decide CooldownMatters
  simp only [Controller.request_iff, missed, if_pos cools]
  constructor
  · rintro ⟨mode, cur, ⟨flees, moves, -⟩ | ⟨chooses, away, confirms, -⟩⟩
    · exact ⟨cur, Or.inl ⟨flees, moves⟩⟩
    · exact ⟨cur, Or.inr ⟨chooses, away, confirms⟩⟩
  · rintro ⟨cur, ⟨flees, moves⟩ | ⟨chooses, away, confirms⟩⟩
    · exact ⟨_, cur, Or.inl ⟨flees, moves, rfl⟩⟩
    · exact ⟨_, cur, Or.inr ⟨chooses, away, confirms, rfl⟩⟩

theorem decide_of_coolingDown (cooling : a.c.coolingDown i.now = true)
    (listens : a.c.Listens false i cur) : a.c.decide i = (.none, { a.c with last := i.now }) :=
  Controller.decideBy_of_pauses (.rests listens.evaluates listens.idle (Or.inl cooling))

/-- A tick past the cool-down that the code still holds back loses what it would have done. -/
theorem heldBack_iff (cooling : a.c.coolingDown i.now = true) (ended : ¬a.Cools time) :
    a.TimelyTick time i ↔ ∀ cur, ¬a.CooldownMatters time i cur := by
  have rests : ∀ cur, a.c.Listens false i cur →
      a.c.decide i = (.none, { a.c with last := i.now }) :=
    fun cur listens => decide_of_coolingDown cooling listens
  constructor
  · rintro timely cur (⟨flees, moves⟩ | ⟨chooses, matters⟩)
    · have asks := timely.flees ended cur flees moves
      rw [rests cur flees.toListens] at asks
      cases asks
    · have same := timely.chooses ended cur chooses
      rw [rests cur chooses.toListens] at same
      rw [if_neg ended] at matters
      obtain ⟨free, want, stable⟩ := Controller.choose_eq_self_iff.mp same.symm
      rcases matters with pursues | running | counted
      · exact free pursues
      · exact running want
      · exact counted stable
  · intro idle
    refine ⟨fun cools => absurd cools ended, fun _ cur flees moves => ?_, fun _ cur chooses => ?_⟩
    · exact absurd (Or.inl ⟨flees, moves⟩) (idle cur)
    · rw [rests cur chooses.toListens]
      refine (Controller.choose_eq_self_iff.mpr ?_).symm
      have free := idle cur ∘ fun matters => Or.inr ⟨chooses, (if_neg ended).mpr matters⟩
      exact ⟨fun pursues => free (Or.inl pursues),
        not_not.mp fun want => free (Or.inr (Or.inl want)),
        not_not.mp fun stable => free (Or.inr (Or.inr stable))⟩

/-- A tick past the cool-down that the code lets through goes to the right target. -/
theorem letThrough_iff (free : a.c.coolingDown i.now = false) (ended : ¬a.Cools time) :
    a.TimelyTick time i ↔
      ∀ cur, a.PenaltyMatters time i cur → (a.c.guarding i.now = true ↔ a.Guards time) := by
  have goes : ∀ cur, a.c.Chooses false i cur →
      (a.c.decide i =
          ({ a.c with last := i.now } : Controller F).choose i cur (a.target time i cur) ↔
        (a.PenaltyMatters time i cur → (a.c.guarding i.now = true ↔ a.Guards time))) := by
    intro cur chooses
    have warm : a.c.Chooses (a.c.coolingDown i.now) i cur := by
      rw [free]
      exact chooses
    have matters : a.PenaltyMatters time i cur ↔
        a.c.capped true (a.c.wanted i cur) ≠ a.c.wanted i cur ∧
          (a.c.Pursues i cur (a.c.capped true (a.c.wanted i cur)) ∨
            a.c.Pursues i cur (a.c.wanted i cur)) :=
      ⟨fun penalty => penalty.2.2, fun differs => ⟨ended, warm, differs⟩⟩
    have flags : (a.c.guarding i.now = true ↔ a.Guards time) ↔
        a.c.guarding i.now = decide (a.Guards time) := by
      by_cases guards : a.Guards time <;> simp [guards]
    rw [Controller.decide, Controller.decideBy_of_chooses warm, target_eq, matters, flags]
    exact Controller.choose_capped_iff (c := { a.c with last := i.now })
  constructor
  · intro timely cur penalty
    have chooses := penalty.2.1
    rw [free] at chooses
    exact (goes cur chooses).mp (timely.chooses ended cur chooses) penalty
  · intro agrees
    refine ⟨fun cools => absurd cools ended, fun _ cur flees moves => ?_, fun _ cur chooses =>
      (goes cur chooses).mpr (agrees cur)⟩
    rw [Controller.decide, Controller.decideBy_of_flees (by rw [free]; exact flees), if_pos moves]
    rfl

theorem Stored.tick_iff (stored : a.Stored) (reads : i.now = UInt32.ofNat time) :
    a.TimelyTick time i ↔ a.TickAgrees time i := by
  have agrees : a.TickAgrees time i ↔
      (∀ cur, a.CooldownMatters time i cur → (a.c.coolingDown i.now = true ↔ a.Cools time)) ∧
        ∀ cur, a.PenaltyMatters time i cur → (a.c.guarding i.now = true ↔ a.Guards time) := by
    rw [reads, stored.cooling_iff, stored.guarding_iff]
    exact ⟨fun tick => ⟨tick.cooldown, tick.penalty⟩, fun sides => ⟨sides.1, sides.2⟩⟩
  rw [agrees]
  by_cases cools : a.Cools time
  · -- The penalty has no say here.
    have alone : ∀ cur, ¬a.PenaltyMatters time i cur := fun cur penalty => penalty.1 cools
    have quiet : a.TimelyTick time i ↔ ¬∃ mode, (a.c.decide i).1 = .request mode :=
      ⟨fun timely => not_exists.mpr (timely.suppressed cools), fun none =>
        ⟨fun _ => not_exists.mp none, fun ended => absurd cools ended,
          fun ended => absurd cools ended⟩⟩
    cases cooling : a.c.coolingDown i.now with
    | true => simp [quiet, cools, alone, no_request cooling]
    | false => simp [quiet, missed_iff cooling cools, cools, alone]
  · cases cooling : a.c.coolingDown i.now with
    | true =>
        have alone : ∀ cur, ¬a.PenaltyMatters time i cur := fun cur penalty =>
          not_listens cooling penalty.2.1.toListens
        simp [heldBack_iff cooling cools, cools, alone]
    | false => simp [letThrough_iff cooling cools, cools]

/-! ### Every run -/

/-- In every run from `Begin`, over any number of wraps, the cool-down and the penalty act as
long as they should exactly when each tick is on the right side of the deadlines that make a
difference to it. -/
theorem timely_iff (ladder : Ladder F) (cfg : Config F) (events : List (Nat × Event F)) :
    Along step Timely ⟨.fresh ladder cfg, none, none⟩ events ↔
      Along step ClockAgrees ⟨.fresh ladder cfg, none, none⟩ events := by
  have start : Stored (⟨.fresh ladder cfg, none, none⟩ : Armed F) :=
    ⟨rfl, rfl, fun start member => by cases member⟩
  refine along_iff (fun a timed stored => ?_) (fun a timed stored _ => stored.step timed) start
    events
  obtain ⟨time, event⟩ := timed
  cases event with
  | tick i => exact stored.tick_iff rfl
  | fallback | enableGfsk => exact Iff.rfl

end Armed

/-- A tick on 'medium' with three frames in ten sent again. -/
def mediumLossTick : In Int where
  now := 0
  busy := false
  haveLink := true
  cur := some 2
  snr := 100
  rssi := -200
  retxPct := 30

/-- A cool-down armed ten seconds before the clock wraps does not stop a request five seconds
later. -/
theorem cooldown_lost :
    ¬∀ (ladder : Ladder Int) (cfg : Config Int) (events : List (Nat × Event Int)),
      Along Armed.step Armed.Timely ⟨.fresh ladder cfg, none, none⟩ events := by
  intro always
  obtain ⟨-, timely, -⟩ := always firmwareLadder firmwareConfig
    [(2 ^ 32 - 10000, .fallback 0 (some 0)), (2 ^ 32 - 5000, .tick mediumLossTick)]
  exact absurd (by decide) (timely.suppressed ⟨2 ^ 32 - 10000, rfl, by decide⟩ (some 3))

end LoraSerial.Adr
