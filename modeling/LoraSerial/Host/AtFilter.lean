import LoraSerial.Host.Ingest
import LoraSerial.Library.Run

/-!
Owns the escape filter over whole sessions: `AtFilter` on every chunk of host bytes, in and
outside AT mode, and `AtTick`. Proves when the filter is transparent to data. A command is
over when the byte that ends its line is; does not own the calls made while one runs.
Times are values of `millis()`.
-/

namespace LoraSerial.Host

open Library LinkLayer

def atLineMax : Nat := 80
def atIdleExitMs : UInt32 := 60000

/-! ### Command lines -/

def carriageReturn : UInt8 := 0x0D
def lineFeed : UInt8 := 0x0A
def equalsSign : UInt8 := 0x3D

def endsLine (byte : UInt8) : Bool :=
  byte == carriageReturn || byte == lineFeed

/-- What a function that reads cells as a C string sees of them. -/
def cString (cells : Bytes) : Bytes :=
  cells.takeWhile (· ≠ 0)

def upper (byte : UInt8) : UInt8 :=
  if 0x61 ≤ byte ∧ byte ≤ 0x7A then byte - 32 else byte

def inHead (byte : UInt8) : Bool :=
  byte ≠ 0 && byte ≠ equalsSign

/-- `AtExec` upper-cases the command head in place. -/
def upperHead (cells : Bytes) : Bytes :=
  (cells.takeWhile inHead).map upper ++ cells.dropWhile inHead

/-- `ATO` -/
def atoText : Bytes := [0x41, 0x54, 0x4F]

/-! ### The filter -/

/-- `atLine` has all the cells of `at_line_`, of which `atN` are in use. -/
structure AtFilter where
  atMode : Bool
  atLine : Bytes
  atN : Nat
  atPlus : UInt8
  atPlusAt : UInt32
  atLastData : UInt32
  atActiveAt : UInt32
deriving DecidableEq, Repr

namespace AtFilter

def boot : AtFilter where
  atMode := false
  atLine := List.replicate atLineMax 0
  atN := 0
  atPlus := 0
  atPlusAt := 0
  atLastData := 0
  atActiveAt := 0

/-- A byte ends a line that is not empty. -/
def submits (host : AtFilter) (byte : UInt8) : Bool :=
  host.atMode && endsLine byte && host.atN != 0

/-- The cells as `AtExec` gets them. -/
def terminated (host : AtFilter) : Bytes :=
  host.atLine.set host.atN 0

/-- The line that `AtExec` gets. -/
def submitted (host : AtFilter) : Bytes :=
  cString host.terminated

/-- The text that `AtExec` compares with its commands. -/
def command (host : AtFilter) : Bytes :=
  cString (upperHead host.terminated)

/-- `AtExec` begins. -/
def beginExec (host : AtFilter) (now : UInt32) : AtFilter :=
  { host with atActiveAt := now, atLine := upperHead host.terminated }

/-- `AtExec` returned. -/
def endExec (host : AtFilter) : AtFilter :=
  { host with atN := 0 }

/-- A byte in AT mode. -/
def typed (host : AtFilter) (byte : UInt8) (now : UInt32) : AtFilter :=
  if endsLine byte then
    if host.atN = 0 then { host with atActiveAt := now }
    else { (host.beginExec now).endExec with atMode := host.command != atoText }
  else if host.atN < atLineMax - 1 then
    { host with atActiveAt := now, atLine := host.atLine.set host.atN byte, atN := host.atN + 1 }
  else { host with atActiveAt := now }

/-- A byte outside AT mode is held back. -/
def holds (host : AtFilter) (byte : UInt8) (now : UInt32) : Bool :=
  byte == plus && (0 < host.atPlus || escapeGuardMs ≤ now - host.atLastData)

/-- One byte of `AtFilter`: what it puts out, and the filter after it. -/
def filterByte (host : AtFilter) (byte : UInt8) (now : UInt32) : Bytes × AtFilter :=
  if host.atMode then ([], host.typed byte now)
  else if host.holds byte now then
    if host.atPlus < escapePlusCount then
      ([], { host with atPlus := host.atPlus + 1, atPlusAt := now })
    else ([], host)
  else
    (List.replicate host.atPlus.toNat plus ++ [byte],
      { host with atPlus := 0, atLastData := now })

/-- `AtFilter` on one chunk, with the clock at every byte. -/
def atFilter (host : AtFilter) : List (UInt8 × UInt32) → Bytes × AtFilter
  | [] => ([], host)
  | (byte, now) :: rest =>
      let first := host.filterByte byte now
      let later := first.2.atFilter rest
      (first.1 ++ later.1, later.2)

/-- `AtTick` takes the escape. -/
def escapes (host : AtFilter) (now : UInt32) : Bool :=
  !host.atMode && escapePlusCount ≤ host.atPlus && escapeGuardMs ≤ now - host.atPlusAt

def atTick (host : AtFilter) (now : UInt32) : AtFilter :=
  if host.escapes now then
    { host with atPlus := 0, atMode := true, atN := 0, atActiveAt := now }
  else if host.atMode && atIdleExitMs ≤ now - host.atActiveAt then
    { host with atMode := false, atN := 0 }
  else host

/-! ### Small facts -/

variable {host : AtFilter} {byte : UInt8} {now : UInt32}

@[simp] theorem typed_atPlus (host : AtFilter) (byte : UInt8) (now : UInt32) :
    (host.typed byte now).atPlus = host.atPlus := by
  unfold typed
  split
  · split <;> rfl
  · split <;> rfl

@[simp] theorem typed_atPlusAt (host : AtFilter) (byte : UInt8) (now : UInt32) :
    (host.typed byte now).atPlusAt = host.atPlusAt := by
  unfold typed
  split
  · split <;> rfl
  · split <;> rfl

@[simp] theorem typed_atLastData (host : AtFilter) (byte : UInt8) (now : UInt32) :
    (host.typed byte now).atLastData = host.atLastData := by
  unfold typed
  split
  · split <;> rfl
  · split <;> rfl

/-- The end of a line that is empty. -/
theorem typed_empty (ends : endsLine byte = true) (empty : host.atN = 0) :
    host.typed byte now = { host with atActiveAt := now } := by
  rw [typed, if_pos ends, if_pos empty]

theorem typed_submitted (ends : endsLine byte = true) (line : host.atN ≠ 0) :
    host.typed byte now =
      { (host.beginExec now).endExec with atMode := host.command != atoText } := by
  rw [typed, if_pos ends, if_neg line]

theorem typed_appended (inside : endsLine byte = false) (room : host.atN < atLineMax - 1) :
    host.typed byte now =
      { host with
        atActiveAt := now
        atLine := host.atLine.set host.atN byte
        atN := host.atN + 1 } := by
  rw [typed, if_neg (by simp [inside]), if_pos room]

theorem typed_full (inside : endsLine byte = false) (full : ¬host.atN < atLineMax - 1) :
    host.typed byte now = { host with atActiveAt := now } := by
  rw [typed, if_neg (by simp [inside]), if_neg full]

/-- The accumulator that holds what fits of a line holds what fits of the longer line. -/
theorem typed_inLine {line : Bytes} (inside : endsLine byte = false)
    (cells : host.atLine.length = atLineMax)
    (used : host.atN = min line.length (atLineMax - 1))
    (held : host.atLine.take host.atN = line.take (atLineMax - 1)) (now : UInt32) :
    (host.typed byte now).atMode = host.atMode ∧
      (host.typed byte now).atLine.length = atLineMax ∧
      (host.typed byte now).atN = min (line.length + 1) (atLineMax - 1) ∧
      (host.typed byte now).atLine.take (host.typed byte now).atN =
        (line ++ [byte]).take (atLineMax - 1) := by
  by_cases room : host.atN < atLineMax - 1
  · have short : line.length < atLineMax - 1 := by omega
    have whole : host.atN = line.length := by omega
    have inCells : host.atN < host.atLine.length := by
      rw [cells]
      unfold atLineMax at *
      omega
    have fits : (line ++ [byte]).length ≤ atLineMax - 1 := by
      rw [List.length_append, List.length_singleton]
      omega
    rw [typed_appended inside room]
    refine ⟨rfl, List.length_set.trans cells, by change host.atN + 1 = _; omega, ?_⟩
    change (host.atLine.set host.atN byte).take (host.atN + 1) = _
    rw [List.take_add_one, List.take_set_of_le (Nat.le_refl _), held,
      List.getElem?_set_self inCells, List.take_of_length_le (Nat.le_of_lt short),
      List.take_of_length_le fits]
    rfl
  · have long : atLineMax - 1 ≤ line.length := by omega
    rw [typed_full inside room]
    refine ⟨rfl, cells, by change host.atN = _; omega, ?_⟩
    rw [List.take_append_of_le_length long]
    exact held

theorem submits_iff : host.submits byte = true ↔
    host.atMode = true ∧ endsLine byte = true ∧ host.atN ≠ 0 := by
  simp [submits, and_assoc]

theorem filterByte_typed (mode : host.atMode = true) :
    host.filterByte byte now = ([], host.typed byte now) := by
  rw [filterByte, if_pos mode]

theorem filterByte_held (mode : host.atMode = false) (held : host.holds byte now = true)
    (room : host.atPlus < escapePlusCount) :
    host.filterByte byte now = ([], { host with atPlus := host.atPlus + 1, atPlusAt := now }) := by
  rw [filterByte, if_neg (by simp [mode]), if_pos held, if_pos room]

theorem filterByte_swallowed (mode : host.atMode = false) (held : host.holds byte now = true)
    (full : ¬host.atPlus < escapePlusCount) : host.filterByte byte now = ([], host) := by
  rw [filterByte, if_neg (by simp [mode]), if_pos held, if_neg full]

theorem filterByte_passed (mode : host.atMode = false) (passed : host.holds byte now = false) :
    host.filterByte byte now =
      (List.replicate host.atPlus.toNat plus ++ [byte],
        { host with atPlus := 0, atLastData := now }) := by
  rw [filterByte, if_neg (by simp [mode]), if_neg (by simp [passed])]

/-- A byte outside AT mode leaves AT mode's fields alone. -/
theorem filterByte_outside (mode : host.atMode = false) (byte : UInt8) (now : UInt32) :
    (host.filterByte byte now).2.atMode = false ∧
      (host.filterByte byte now).2.atLine = host.atLine ∧
      (host.filterByte byte now).2.atN = host.atN := by
  unfold filterByte
  rw [if_neg (by simp [mode])]
  split
  · split <;> exact ⟨mode, rfl, rfl⟩
  · exact ⟨mode, rfl, rfl⟩

/-- A tick that changes the mode empties the accumulator. -/
theorem atTick_line (host : AtFilter) (now : UInt32) :
    (host.atTick now).atLine = host.atLine ∧
      ((host.atTick now).atMode = host.atMode ∧ (host.atTick now).atN = host.atN ∨
        (host.atTick now).atMode = !host.atMode ∧ (host.atTick now).atN = 0) := by
  unfold atTick
  split
  next escapes =>
    rw [AtFilter.escapes, Bool.and_eq_true, Bool.and_eq_true] at escapes
    exact ⟨rfl, Or.inr ⟨escapes.1.1.symm, rfl⟩⟩
  next =>
    split
    next idle =>
      rw [Bool.and_eq_true] at idle
      refine ⟨rfl, Or.inr ⟨?_, rfl⟩⟩
      change false = !host.atMode
      rw [idle.1]
      rfl
    next => exact ⟨rfl, Or.inl ⟨rfl, rfl⟩⟩

/-- A line with no NUL in it is handed over whole. -/
theorem submitted_eq (cells : host.atLine.length = atLineMax) (inside : host.atN < atLineMax)
    (noNul : 0 ∉ host.atLine.take host.atN) :
    host.submitted = host.atLine.take host.atN := by
  have split : host.terminated =
      host.atLine.take host.atN ++ 0 :: host.atLine.drop (host.atN + 1) := by
    rw [terminated, List.set_eq_take_append_cons_drop, if_pos (by omega)]
  rw [submitted, split, cString, List.takeWhile_append_of_pos]
  · simp
  · intro byte member
    exact decide_eq_true fun nul => noNul (nul ▸ member)

theorem length_upperHead (cells : Bytes) : (upperHead cells).length = cells.length := by
  rw [upperHead, List.length_append, List.length_map, ← List.length_append,
    List.takeWhile_append_dropWhile]

theorem toNat_succ {held : UInt8} (room : held < escapePlusCount) :
    (held + 1).toNat = held.toNat + 1 := by
  have bound : held.toNat < 3 := UInt8.lt_iff_toNat_lt.mp room
  have one : (1 : UInt8).toNat = 1 := rfl
  rw [UInt8.toNat_add, one]
  omega

/-- At most three plus signs are ever held. -/
theorem atPlus_filterByte_le (few : host.atPlus.toNat ≤ 3) (byte : UInt8) (now : UInt32) :
    (host.filterByte byte now).2.atPlus.toNat ≤ 3 := by
  cases mode : host.atMode with
  | true =>
      rw [filterByte_typed mode, typed_atPlus]
      exact few
  | false =>
      cases held : host.holds byte now with
      | false =>
          rw [filterByte_passed mode held]
          exact Nat.zero_le _
      | true =>
          by_cases room : host.atPlus < escapePlusCount
          · rw [filterByte_held mode held room]
            exact (toNat_succ room).trans_le (UInt8.lt_iff_toNat_lt.mp room)
          · rw [filterByte_swallowed mode held room]
            exact few

theorem atPlus_atTick_le (few : host.atPlus.toNat ≤ 3) (now : UInt32) :
    (host.atTick now).atPlus.toNat ≤ 3 := by
  unfold atTick
  split
  next => exact Nat.zero_le _
  next =>
    split
    next => exact few
    next => exact few

/-- What comes out of one byte, and what is held after it, were held or came in. -/
theorem length_filterByte_le (host : AtFilter) (byte : UInt8) (now : UInt32) :
    (host.filterByte byte now).1.length + (host.filterByte byte now).2.atPlus.toNat ≤
      host.atPlus.toNat + 1 := by
  cases mode : host.atMode with
  | true =>
      rw [filterByte_typed mode, typed_atPlus]
      simp
  | false =>
      cases held : host.holds byte now with
      | false =>
          rw [filterByte_passed mode held]
          simp
      | true =>
          by_cases room : host.atPlus < escapePlusCount
          · rw [filterByte_held mode held room, toNat_succ room]
            simp
          · rw [filterByte_swallowed mode held room]
            simp

theorem length_atFilter_le (host : AtFilter) (chunk : List (UInt8 × UInt32)) :
    (host.atFilter chunk).1.length + (host.atFilter chunk).2.atPlus.toNat ≤
      host.atPlus.toNat + chunk.length := by
  induction chunk generalizing host with
  | nil => simp [atFilter]
  | cons first rest inductionHypothesis =>
      have one := host.length_filterByte_le first.1 first.2
      have others := inductionHypothesis (host.filterByte first.1 first.2).2
      simp only [atFilter, List.length_append, List.length_cons]
      omega

end AtFilter

/-- The filter that `Ingest` runs outside AT mode. -/
def Ingest.filter {cap : Nat} (host : Ingest cap) : AtFilter where
  atMode := false
  atLine := AtFilter.boot.atLine
  atN := 0
  atPlus := host.atPlus
  atPlusAt := host.atPlusAt
  atLastData := host.atLastData
  atActiveAt := 0

theorem Ingest.filter_filterByte {cap : Nat} (host : Ingest cap) (byte : UInt8) (now : UInt32) :
    host.filter.filterByte byte now =
      ((host.filterByte byte now).1, (host.filterByte byte now).2.filter) := by
  have held : host.filter.holds byte now = true ↔
      byte = plus ∧ (0 < host.atPlus ∨ escapeGuardMs ≤ now - host.atLastData) := by
    rw [AtFilter.holds, Bool.and_eq_true, Bool.or_eq_true, beq_iff_eq, decide_eq_true_iff,
      decide_eq_true_iff]
    exact Iff.rfl
  by_cases hold : byte = plus ∧ (0 < host.atPlus ∨ escapeGuardMs ≤ now - host.atLastData)
  · by_cases room : host.atPlus < escapePlusCount
    · rw [AtFilter.filterByte_held rfl (held.mpr hold) room, Ingest.filterByte, if_pos hold,
        if_pos room]
      rfl
    · rw [AtFilter.filterByte_swallowed rfl (held.mpr hold) room, Ingest.filterByte, if_pos hold,
        if_neg room]
  · have passed := Bool.eq_false_iff.mpr fun holds => hold (held.mp holds)
    rw [AtFilter.filterByte_passed rfl passed, Ingest.filterByte, if_neg hold]
    rfl

/-- What ends a run of `Ingest` is the escape. -/
theorem Ingest.filter_escapes {cap : Nat} (host : Ingest cap) (now : UInt32) :
    host.filter.escapes now = host.escapes now := rfl

end LoraSerial.Host
