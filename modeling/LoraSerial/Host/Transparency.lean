import LoraSerial.Host.AtFilter

/-!
Owns the transparency of the escape filter: an ideal filter that removes the escapes and
nothing else, the transcript of both filters on the same bytes and ticks, and when the
firmware's one puts out what the ideal one keeps.
-/

namespace LoraSerial.Host

open Library LinkLayer

/-! ### The ideal filter -/

/-- `kept` and then `run` plus signs are the bytes from outside AT mode, in order and
without the escapes. The run began after the guard silence. -/
structure IdealFilter where
  kept : Bytes
  run : Nat
  runAt : UInt32
  lastData : UInt32
  lastTyped : Option UInt32
  command : Bool
deriving DecidableEq, Repr

namespace IdealFilter

/-- The boot breaks the silence like a byte of data. -/
def boot : IdealFilter where
  kept := []
  run := 0
  runAt := 0
  lastData := 0
  lastTyped := none
  command := false

def input (ideal : IdealFilter) : Bytes :=
  ideal.kept ++ List.replicate ideal.run plus

/-- The host has sent no data and typed nothing within the guard time. -/
def quiet (ideal : IdealFilter) (now : UInt32) : Bool :=
  escapeGuardMs ≤ now - ideal.lastData &&
    ideal.lastTyped.all fun typedAt => escapeGuardMs ≤ now - typedAt

/-- A byte belongs to a run of plus signs that began after the guard silence. -/
def inRun (ideal : IdealFilter) (byte : UInt8) (now : UInt32) : Bool :=
  byte == plus && (0 < ideal.run || ideal.quiet now)

/-- A byte outside AT mode. -/
def data (ideal : IdealFilter) (byte : UInt8) (now : UInt32) : IdealFilter :=
  if ideal.inRun byte now then { ideal with run := ideal.run + 1, runAt := now }
  else { ideal with kept := ideal.input ++ [byte], run := 0, lastData := now }

/-- A byte in AT mode; `stays` says whether AT mode goes on. -/
def typed (ideal : IdealFilter) (now : UInt32) (stays : Bool) : IdealFilter :=
  { ideal with lastTyped := some now, command := stays }

/-- A run of exactly three, and the guard silence after it. -/
def escapes (ideal : IdealFilter) (now : UInt32) : Bool :=
  ideal.run == 3 && escapeGuardMs ≤ now - ideal.runAt

def tick (ideal : IdealFilter) (now : UInt32) : IdealFilter :=
  if ideal.escapes now then { ideal with run := 0, command := true } else ideal

@[simp] theorem input_typed (ideal : IdealFilter) (now : UInt32) (stays : Bool) :
    (ideal.typed now stays).input = ideal.input := rfl

@[simp] theorem run_typed (ideal : IdealFilter) (now : UInt32) (stays : Bool) :
    (ideal.typed now stays).run = ideal.run := rfl

@[simp] theorem runAt_typed (ideal : IdealFilter) (now : UInt32) (stays : Bool) :
    (ideal.typed now stays).runAt = ideal.runAt := rfl

@[simp] theorem lastData_typed (ideal : IdealFilter) (now : UInt32) (stays : Bool) :
    (ideal.typed now stays).lastData = ideal.lastData := rfl

/-- Every byte outside AT mode is kept, after the ones before it. -/
theorem input_data (ideal : IdealFilter) (byte : UInt8) (now : UInt32) :
    (ideal.data byte now).input = ideal.input ++ [byte] := by
  unfold data
  split
  next inRun =>
    have isPlus : byte = plus := by
      rw [IdealFilter.inRun, Bool.and_eq_true, beq_iff_eq] at inRun
      exact inRun.1
    simp [input, isPlus, List.replicate_succ']
  next => simp [input]

end IdealFilter

/-! ### Transcripts -/

inductive Input where
  | byte (byte : UInt8) (now : UInt32)
  | tick (now : UInt32)
deriving DecidableEq, Repr

/-- A call of `AtFilter` on one chunk, or of `AtTick`. -/
inductive Call where
  | filter (chunk : List (UInt8 × UInt32))
  | tick (now : UInt32)

def Call.inputs : Call → List Input
  | .filter chunk => chunk.map fun item => .byte item.1 item.2
  | .tick now => [.tick now]

/-- Both filters, and what the firmware's has put out. AT mode is left when the firmware
leaves it. -/
structure Transcript where
  host : AtFilter
  output : Bytes
  ideal : IdealFilter
deriving DecidableEq

namespace Transcript

def boot : Transcript where
  host := .boot
  output := []
  ideal := .boot

def step (t : Transcript) : Input → Transcript
  | .byte byte now =>
      let filtered := t.host.filterByte byte now
      { host := filtered.2
        output := t.output ++ filtered.1
        ideal :=
          if t.host.atMode then t.ideal.typed now filtered.2.atMode else t.ideal.data byte now }
  | .tick now =>
      let ticked := t.host.atTick now
      { t with
        host := ticked
        ideal :=
          if t.host.atMode then { t.ideal with command := ticked.atMode } else t.ideal.tick now }

def run (t : Transcript) (inputs : List Input) : Transcript :=
  inputs.foldl step t

def runCalls (t : Transcript) (calls : List Call) : Transcript :=
  t.run (calls.flatMap Call.inputs)

/-- What was put out and the plus signs held back are the input without the escapes, and
AT mode is on after an escape only. -/
def Transparent (t : Transcript) : Prop :=
  t.output ++ List.replicate t.host.atPlus.toNat plus = t.ideal.input ∧
    t.ideal.command = t.host.atMode

instance (t : Transcript) : Decidable t.Transparent :=
  inferInstanceAs (Decidable (_ ∧ _))

/-- No plus sign comes when three are held, and the three that are taken for the escape
began after the guard silence. -/
def Clean (t : Transcript) : Input → Prop
  | .byte byte _ => ¬(t.host.atMode = false ∧ byte = plus ∧ t.host.atPlus = escapePlusCount)
  | .tick now => t.host.escapes now = true → t.ideal.run = 3

variable {t : Transcript} {byte : UInt8} {now : UInt32}

/-- A call of `AtFilter` puts out what its bytes put out one by one. -/
theorem run_filter (t : Transcript) (chunk : List (UInt8 × UInt32)) :
    (t.run (Call.filter chunk).inputs).host = (t.host.atFilter chunk).2 ∧
      (t.run (Call.filter chunk).inputs).output = t.output ++ (t.host.atFilter chunk).1 := by
  induction chunk generalizing t with
  | nil => exact ⟨rfl, (List.append_nil _).symm⟩
  | cons first rest inductionHypothesis =>
      have later := inductionHypothesis (t.step (.byte first.1 first.2))
      refine ⟨later.1, later.2.trans ?_⟩
      exact List.append_assoc _ _ _

/-! ### One input -/

/-- The ideal run is never longer than what is held, and began later if it is shorter. -/
structure Tracks (t : Transcript) : Prop where
  transparent : t.Transparent
  few : t.host.atPlus.toNat ≤ 3
  inAtMode : t.host.atMode = true → t.host.atPlus = 0
  run_le : t.ideal.run ≤ t.host.atPlus.toNat
  runAt : 0 < t.ideal.run → t.ideal.runAt = t.host.atPlusAt
  lastData : t.ideal.run = t.host.atPlus.toNat → t.ideal.lastData = t.host.atLastData

theorem tracks_boot : boot.Tracks where
  transparent := ⟨rfl, rfl⟩
  few := by decide
  inAtMode := fun mode => by cases mode
  run_le := Nat.zero_le _
  runAt := fun positive => absurd positive (Nat.lt_irrefl 0)
  lastData := fun _ => rfl

namespace Tracks

/-- The firmware holds every plus sign of the ideal run. -/
theorem holds_of_inRun (tracks : t.Tracks) (inRun : t.ideal.inRun byte now = true) :
    t.host.holds byte now = true := by
  rw [IdealFilter.inRun, Bool.and_eq_true, Bool.or_eq_true, decide_eq_true_iff] at inRun
  obtain ⟨isPlus, running | quiet⟩ := inRun
  · have held : 0 < t.host.atPlus :=
      UInt8.lt_iff_toNat_lt.mpr (Nat.lt_of_lt_of_le running tracks.run_le)
    simp [AtFilter.holds, isPlus, held]
  · by_cases none : t.host.atPlus.toNat = 0
    · have lastData := tracks.lastData (by have := tracks.run_le; omega)
      rw [IdealFilter.quiet, Bool.and_eq_true, lastData] at quiet
      simp [AtFilter.holds, isPlus, of_decide_eq_true quiet.1]
    · have held : 0 < t.host.atPlus := UInt8.lt_iff_toNat_lt.mpr (Nat.pos_of_ne_zero none)
      simp [AtFilter.holds, isPlus, held]

/-- In AT mode nothing is put out or kept. -/
theorem typed (tracks : t.Tracks) (mode : t.host.atMode = true) :
    (t.step (.byte byte now)).Tracks := by
  have after : t.step (.byte byte now) =
      { host := t.host.typed byte now
        output := t.output
        ideal := t.ideal.typed now (t.host.typed byte now).atMode } := by
    simp only [step, AtFilter.filterByte_typed mode, if_pos mode, List.append_nil]
  rw [after]
  have none := tracks.inAtMode mode
  exact
    { transparent := ⟨by simpa using tracks.transparent.1, rfl⟩
      few := by simpa using tracks.few
      inAtMode := fun _ => by simpa using none
      run_le := by simpa using tracks.run_le
      runAt := by simpa using tracks.runAt
      lastData := by simpa using tracks.lastData }

/-- A byte that is not held goes out after the plus signs that were. -/
theorem passed (tracks : t.Tracks) (mode : t.host.atMode = false)
    (passed : t.host.holds byte now = false) : (t.step (.byte byte now)).Tracks := by
  have noRun : t.ideal.inRun byte now = false :=
    Bool.eq_false_iff.mpr fun inRun => by simp [tracks.holds_of_inRun inRun] at passed
  have after : t.step (.byte byte now) =
      { host := { t.host with atPlus := 0, atLastData := now }
        output := t.output ++ (List.replicate t.host.atPlus.toNat plus ++ [byte])
        ideal := { t.ideal with kept := t.ideal.input ++ [byte], run := 0, lastData := now } } := by
    simp [step, AtFilter.filterByte_passed mode passed, mode, IdealFilter.data, noRun]
  rw [after]
  exact
    { transparent := by
        refine ⟨?_, tracks.transparent.2⟩
        simp [← List.append_assoc, tracks.transparent.1, IdealFilter.input]
      few := Nat.zero_le _
      inAtMode := fun _ => rfl
      run_le := Nat.zero_le _
      runAt := fun positive => absurd positive (Nat.lt_irrefl 0)
      lastData := fun _ => rfl }

/-- With less than three held, one more is held. -/
theorem held (tracks : t.Tracks) (mode : t.host.atMode = false)
    (holds : t.host.holds byte now = true) (room : t.host.atPlus < escapePlusCount) :
    (t.step (.byte byte now)).Tracks := by
  have isPlus : byte = plus := by
    rw [AtFilter.holds, Bool.and_eq_true, beq_iff_eq] at holds
    exact holds.1
  have more := AtFilter.toNat_succ room
  have less : t.host.atPlus.toNat < 3 := UInt8.lt_iff_toNat_lt.mp room
  have below := tracks.run_le
  have after : t.step (.byte byte now) =
      { host := { t.host with atPlus := t.host.atPlus + 1, atPlusAt := now }
        output := t.output
        ideal := t.ideal.data byte now } := by
    simp [step, AtFilter.filterByte_held mode holds room, mode]
  have transparent : (t.step (.byte byte now)).Transparent := by
    rw [after]
    constructor
    · change t.output ++ List.replicate (t.host.atPlus + 1).toNat plus = (t.ideal.data byte now).input
      rw [more, List.replicate_succ', ← List.append_assoc, tracks.transparent.1,
        IdealFilter.input_data, isPlus]
    · have unchanged : (t.ideal.data byte now).command = t.ideal.command := by
        unfold IdealFilter.data
        split <;> rfl
      exact unchanged.trans tracks.transparent.2
  have few : (t.host.atPlus + 1).toNat ≤ 3 := by omega
  have outside : t.host.atMode = true → t.host.atPlus + 1 = 0 := fun on => by
    rw [mode] at on
    cases on
  rw [after] at transparent ⊢
  cases inRun : t.ideal.inRun byte now with
  | true =>
      have data : t.ideal.data byte now = { t.ideal with run := t.ideal.run + 1, runAt := now } :=
        if_pos inRun
      rw [data] at transparent ⊢
      exact
        { transparent := transparent
          few := few
          inAtMode := outside
          run_le := by change t.ideal.run + 1 ≤ (t.host.atPlus + 1).toNat; omega
          runAt := fun _ => rfl
          lastData := fun same => tracks.lastData (by
            change t.ideal.run + 1 = (t.host.atPlus + 1).toNat at same
            omega) }
  | false =>
      -- The firmware holds a plus sign that came too soon after a typed byte.
      have data : t.ideal.data byte now =
          { t.ideal with kept := t.ideal.input ++ [byte], run := 0, lastData := now } :=
        if_neg (by simp [inRun])
      rw [data] at transparent ⊢
      exact
        { transparent := transparent
          few := few
          inAtMode := outside
          run_le := Nat.zero_le _
          runAt := fun positive => absurd positive (Nat.lt_irrefl 0)
          lastData := fun same => by
            change 0 = (t.host.atPlus + 1).toNat at same
            omega }

/-- A plus sign that comes when three are held is lost. -/
theorem swallowed (tracks : t.Tracks) (mode : t.host.atMode = false)
    (full : t.host.atPlus = escapePlusCount) :
    ¬(t.step (.byte plus now)).Transparent := by
  have holds : t.host.holds plus now = true := by
    rw [AtFilter.holds, full]
    rfl
  have after : t.step (.byte plus now) =
      { host := t.host, output := t.output, ideal := t.ideal.data plus now } := by
    simp [step, AtFilter.filterByte_swallowed mode holds (by rw [full]; decide), mode]
  rw [after]
  rintro ⟨same, -⟩
  have longer := congrArg List.length (tracks.transparent.1.symm.trans same)
  simp [IdealFilter.input_data] at longer

/-- In AT mode a tick can only leave it. -/
theorem tick_inAtMode (tracks : t.Tracks) (mode : t.host.atMode = true) :
    (t.step (.tick now)).Tracks := by
  have none := tracks.inAtMode mode
  have after : t.step (.tick now) =
      { host := t.host.atTick now
        output := t.output
        ideal := { t.ideal with command := (t.host.atTick now).atMode } } := by
    simp [step, mode]
  have quiet : t.host.escapes now = false := by simp [AtFilter.escapes, mode]
  have same : (t.host.atTick now).atPlus = t.host.atPlus ∧
      (t.host.atTick now).atPlusAt = t.host.atPlusAt ∧
      (t.host.atTick now).atLastData = t.host.atLastData := by
    rw [AtFilter.atTick, if_neg (by simp [quiet])]
    split
    next => exact ⟨rfl, rfl, rfl⟩
    next => exact ⟨rfl, rfl, rfl⟩
  obtain ⟨atPlus, atPlusAt, atLastData⟩ := same
  rw [after]
  exact
    { transparent := ⟨by rw [atPlus]; exact tracks.transparent.1, rfl⟩
      few := by rw [atPlus]; exact tracks.few
      inAtMode := fun _ => atPlus.trans none
      run_le := by rw [atPlus]; exact tracks.run_le
      runAt := by rw [atPlusAt]; exact tracks.runAt
      lastData := by rw [atPlus, atLastData]; exact tracks.lastData }

/-- The escape that both filters take. -/
theorem escaped (tracks : t.Tracks) (escapes : t.host.escapes now = true)
    (run : t.ideal.run = 3) : (t.step (.tick now)).Tracks := by
  have full : t.host.atPlus.toNat = 3 := by
    have := tracks.run_le
    have := tracks.few
    omega
  have runAt := tracks.runAt (by omega)
  have lastData := tracks.lastData (run.trans full.symm)
  have taken := escapes
  rw [AtFilter.escapes, Bool.and_eq_true, Bool.and_eq_true] at taken
  obtain ⟨⟨mode, -⟩, silent⟩ := taken
  rw [Bool.not_eq_true'] at mode
  have idealEscapes : t.ideal.escapes now = true := by
    rw [IdealFilter.escapes, run, runAt, silent]
    rfl
  have after : t.step (.tick now) =
      { host := { t.host with atPlus := 0, atMode := true, atN := 0, atActiveAt := now }
        output := t.output
        ideal := { t.ideal with run := 0, command := true } } := by
    simp [step, AtFilter.atTick, escapes, mode, IdealFilter.tick, idealEscapes]
  have same := tracks.transparent.1
  rw [IdealFilter.input, full, run] at same
  rw [after]
  exact
    { transparent := by
        refine ⟨?_, rfl⟩
        simpa [IdealFilter.input] using List.append_cancel_right same
      few := Nat.zero_le _
      inAtMode := fun _ => rfl
      run_le := Nat.zero_le _
      runAt := fun positive => absurd positive (Nat.lt_irrefl 0)
      lastData := fun _ => lastData }

/-- Outside AT mode a tick that takes no escape changes neither filter. -/
theorem tick_quiet (tracks : t.Tracks) (mode : t.host.atMode = false)
    (quiet : t.host.escapes now = false) : t.step (.tick now) = t := by
  have noEscape : t.ideal.escapes now = false := by
    refine Bool.eq_false_iff.mpr fun escapes => ?_
    rw [IdealFilter.escapes, Bool.and_eq_true, beq_iff_eq] at escapes
    obtain ⟨run, silent⟩ := escapes
    have full : escapePlusCount ≤ t.host.atPlus :=
      UInt8.le_iff_toNat_le.mpr (run.symm.le.trans tracks.run_le)
    have runAt := tracks.runAt (by omega)
    rw [runAt] at silent
    simp [AtFilter.escapes, mode, full, of_decide_eq_true silent] at quiet
  simp [step, AtFilter.atTick, quiet, mode, IdealFilter.tick, noEscape]

/-- Three plus signs that came too soon after a typed byte are taken for the escape. -/
theorem unguarded (tracks : t.Tracks) (escapes : t.host.escapes now = true)
    (run : t.ideal.run ≠ 3) : ¬(t.step (.tick now)).Transparent := by
  have mode : t.host.atMode = false := by
    rw [AtFilter.escapes, Bool.and_eq_true, Bool.and_eq_true, Bool.not_eq_true'] at escapes
    exact escapes.1.1
  have noEscape : t.ideal.escapes now = false := by simp [IdealFilter.escapes, run]
  have after : t.step (.tick now) =
      { host := { t.host with atPlus := 0, atMode := true, atN := 0, atActiveAt := now }
        output := t.output
        ideal := t.ideal } := by
    simp [step, AtFilter.atTick, escapes, mode, IdealFilter.tick, noEscape]
  rw [after]
  rintro ⟨-, command⟩
  have off := tracks.transparent.2
  rw [command, mode] at off
  cases off

/-- One clean input. -/
theorem step (tracks : t.Tracks) (input : Input) (clean : t.Clean input) :
    (t.step input).Tracks := by
  cases input with
  | byte byte now =>
      cases mode : t.host.atMode with
      | true => exact tracks.typed mode
      | false =>
          cases holds : t.host.holds byte now with
          | false => exact tracks.passed mode holds
          | true =>
              have isPlus : byte = plus := by
                rw [AtFilter.holds, Bool.and_eq_true, beq_iff_eq] at holds
                exact holds.1
              refine tracks.held mode holds (UInt8.lt_iff_toNat_lt.mpr ?_)
              refine Nat.lt_of_le_of_ne tracks.few fun full => clean ⟨mode, isPlus, ?_⟩
              exact UInt8.toNat_inj.mp full
  | tick now =>
      cases mode : t.host.atMode with
      | true => exact tracks.tick_inAtMode mode
      | false =>
          cases escapes : t.host.escapes now with
          | true => exact tracks.escaped escapes (clean escapes)
          | false =>
              rw [tracks.tick_quiet mode escapes]
              exact tracks

/-- The filter is transparent after one more input exactly when the input is clean. -/
theorem step_iff (tracks : t.Tracks) (input : Input) :
    (t.step input).Transparent ↔ t.Clean input := by
  refine ⟨fun transparent => ?_, fun clean => (tracks.step input clean).transparent⟩
  cases input with
  | byte byte now =>
      rintro ⟨mode, rfl, full⟩
      exact tracks.swallowed mode full transparent
  | tick now =>
      intro escapes
      by_contra run
      exact tracks.unguarded escapes run transparent

end Tracks

/-! ### Sessions -/

theorem atPlus_run_le (inputs : List Input) : (boot.run inputs).host.atPlus.toNat ≤ 3 := by
  refine List.foldlRecOn (motive := fun t => t.host.atPlus.toNat ≤ 3) inputs Transcript.step
    tracks_boot.few fun t few input _ => ?_
  cases input with
  | byte byte now => exact AtFilter.atPlus_filterByte_le few byte now
  | tick now => exact AtFilter.atPlus_atTick_le few now

/-- Whatever the host sends, in whatever chunks and at whatever times: no call puts out
more than its chunk and three plus signs, and the filter is transparent after every byte
and every tick exactly when all of them are clean. -/
theorem transparent_iff (calls : List Call) :
    (∀ chunk, ((boot.runCalls calls).host.atFilter chunk).1.length ≤ chunk.length + 3) ∧
      ((∀ before, before <+: calls.flatMap Call.inputs → (boot.run before).Transparent) ↔
        Run.Along Transcript.step Clean boot (calls.flatMap Call.inputs)) := by
  constructor
  · intro chunk
    have few := atPlus_run_le (calls.flatMap Call.inputs)
    have total := (boot.runCalls calls).host.length_atFilter_le chunk
    have same : (boot.runCalls calls).host = (boot.run (calls.flatMap Call.inputs)).host := rfl
    rw [same] at total ⊢
    omega
  · have reached : (∀ before, before <+: calls.flatMap Call.inputs →
        (boot.run before).Transparent) ↔ boot.Transparent ∧
          Run.Along Transcript.step (fun t input => (t.step input).Transparent) boot
            (calls.flatMap Call.inputs) :=
      Run.forall_prefix_iff
    rw [reached, and_iff_right tracks_boot.transparent]
    exact Run.along_iff (fun t input tracks => tracks.step_iff input)
      (fun t input tracks clean => tracks.step input clean) tracks_boot _

/-- Four plus signs after a silence come out as three. -/
def fourPluses : List Call :=
  [.filter ((List.range 4).map fun index => (plus, 2000 + UInt32.ofNat index)),
    .filter [(0x78, 2010)]]

/-- An escape right after `ATO` is taken for one after a silence. -/
def escapeAfterAto : List Call :=
  [.filter [(plus, 2000), (plus, 2001), (plus, 2002)], .tick 3002,
    .filter [(0x41, 4000), (0x54, 4001), (0x4F, 4002), (carriageReturn, 4003)],
    .filter [(plus, 4004), (plus, 4005), (plus, 4006)], .tick 5006]

theorem not_transparent :
    (boot.runCalls fourPluses).output = [plus, plus, plus, 0x78] ∧
      ¬(boot.runCalls fourPluses).Transparent ∧ ¬(boot.runCalls escapeAfterAto).Transparent := by
  decide

end Transcript

end LoraSerial.Host
