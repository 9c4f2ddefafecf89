import LoraSerial.Host.ByteQueue
import LoraSerial.Host.Ingest

/-!
Owns the byte ring without storage, as the ingest allocation leaves it when it fails: the
operations with the faults they can run into, over any storage, and the passes of `Poll` over
them. On bound storage no operation faults and each is the one of the bound ring. Proves which
rows of calls and which runs of `Poll` such a ring survives. Does not own the bytes that
`AtFilter` leaves of a read: a pass is given them.
-/

namespace LoraSerial.Host

open Library LinkLayer

/-- What the language leaves undefined. -/
inductive Fault where
  | divideByZero
  | nullBuffer
deriving DecidableEq, Repr

/-- `%` on `size_t` -/
def modulo (a b : Nat) : Except Fault Nat :=
  if b = 0 then .error .divideByZero else .ok (a % b)

namespace ByteRing

variable {cap : Nat}

/-! ### Operations with their faults -/

def checkedCount (bytes : ByteRing cap) : Except Fault Nat :=
  modulo (bytes.ring.head + cap - bytes.ring.tail) cap

def checkedFree (bytes : ByteRing cap) : Except Fault Nat := do
  if cap = 0 then return 0
  let count ← bytes.checkedCount
  return cap - 1 - count

def checkedDrop (bytes : ByteRing cap) (n : Nat) : Except Fault (ByteRing cap) := do
  let tail ← modulo (bytes.ring.tail + n) cap
  return { bytes with ring := { bytes.ring with tail := tail } }

/-- The null pointer may be kept, not moved. -/
def checkedPeek (bytes : ByteRing cap) : Except Fault (List UInt8) :=
  if cap = 0 ∧ bytes.ring.tail ≠ 0 then .error .nullBuffer else .ok bytes.peek

/-- `memcpy` from the run at the tail. -/
def checkedCopy (cap : Nat) (run : List UInt8) (c : Nat) : Except Fault (List UInt8) :=
  if cap = 0 then .error .nullBuffer else .ok (run.take c)

/-- Past the guard the ring is bound. -/
def checkedPush (bytes : ByteRing cap) (s : List UInt8) : Except Fault (Nat × ByteRing cap) :=
  if cap = 0 ∨ s.length = 0 then .ok (0, bytes) else .ok (bytes.push s)

def checkedReadLoop : Nat → ByteRing cap → Nat → Except Fault (List UInt8 × ByteRing cap)
  | 0, bytes, _ => .ok ([], bytes)
  | fuel + 1, bytes, n => do
      if n = 0 then return ([], bytes)
      let count ← bytes.checkedCount
      if count = 0 then return ([], bytes)
      let run ← bytes.checkedPeek
      let c := min n run.length
      let copied ← checkedCopy cap run c
      let dropped ← bytes.checkedDrop c
      let rest ← checkedReadLoop fuel dropped (n - c)
      return (copied ++ rest.1, rest.2)

def checkedRead (bytes : ByteRing cap) (n : Nat) : Except Fault (List UInt8 × ByteRing cap) :=
  checkedReadLoop n bytes n

/-- A push never faults. -/
theorem checkedPush_eq (bytes : ByteRing cap) (s : List UInt8) :
    bytes.checkedPush s = .ok (bytes.push s) := by
  unfold checkedPush
  split
  next nothing => rw [push, if_pos nothing]
  next => rfl

/-! ### Bound storage -/

section Bound

variable (positive : 0 < cap) (bytes : ByteRing cap)

include positive

theorem checkedCount_eq : bytes.checkedCount = .ok bytes.count :=
  if_neg (Nat.ne_of_gt positive)

theorem checkedFree_eq : bytes.checkedFree = .ok bytes.free := by
  rw [checkedFree, if_neg (Nat.ne_of_gt positive), checkedCount_eq positive, free,
    if_neg (Nat.ne_of_gt positive)]
  rfl

theorem checkedDrop_eq (n : Nat) : bytes.checkedDrop n = .ok (bytes.drop n) := by
  rw [checkedDrop, modulo, if_neg (Nat.ne_of_gt positive)]
  rfl

theorem checkedPeek_eq : bytes.checkedPeek = .ok bytes.peek :=
  if_neg fun null => Nat.ne_of_gt positive null.1

theorem checkedRead_eq (n : Nat) : bytes.checkedRead n = .ok (bytes.read n) := by
  suffices looped : ∀ fuel (bytes : ByteRing cap) n,
      checkedReadLoop fuel bytes n = .ok (readLoop fuel bytes n) from looped n bytes n
  intro fuel
  induction fuel with
  | zero => exact fun _ _ => rfl
  | succ fuel inductionHypothesis =>
      intro bytes n
      rw [checkedReadLoop, readLoop, checkedCount_eq positive, checkedPeek_eq positive]
      by_cases wanted : n = 0
      · rw [if_pos wanted, if_neg (by omega)]
        rfl
      · rw [if_neg wanted]
        by_cases empty : bytes.count = 0
        · rw [if_neg (by omega)]
          simp only [bind, Except.bind, if_pos empty]
          rfl
        · rw [if_pos (by omega)]
          simp only [bind, Except.bind, if_neg empty, checkedCopy,
            if_neg (Nat.ne_of_gt positive), checkedDrop_eq positive, inductionHypothesis]
          rfl

end Bound

/-! ### No storage -/

/-- As constructed, or after `Init` with nothing. -/
structure Unbound (bytes : ByteRing cap) : Prop where
  storage : cap = 0
  head : bytes.ring.head = 0
  tail : bytes.ring.tail = 0

section Unbound

variable {bytes : ByteRing cap}

theorem unbound_constructed : (unbound 0).Unbound :=
  ⟨rfl, rfl, rfl⟩

theorem unbound_init (bytes : ByteRing 0) (buf : Nat → UInt8) : (bytes.init buf).Unbound :=
  ⟨rfl, rfl, rfl⟩

namespace Unbound

theorem setPolicy (unbound : bytes.Unbound) (policy : Policy) (keep : Nat) :
    (bytes.setPolicy policy keep).Unbound :=
  ⟨unbound.storage, unbound.head, unbound.tail⟩

theorem contents (unbound : bytes.Unbound) : bytes.contents = [] := by
  simp [ByteRing.contents, RingBuffer.contents, RingBuffer.count, unbound.storage, unbound.head]

theorem checkedCount (unbound : bytes.Unbound) : bytes.checkedCount = .error .divideByZero :=
  if_pos unbound.storage

theorem checkedFree (unbound : bytes.Unbound) : bytes.checkedFree = .ok 0 := by
  rw [ByteRing.checkedFree, if_pos unbound.storage]
  rfl

theorem checkedDrop (unbound : bytes.Unbound) (n : Nat) :
    bytes.checkedDrop n = .error .divideByZero := by
  rw [ByteRing.checkedDrop, modulo, if_pos unbound.storage]
  rfl

theorem checkedPeek (unbound : bytes.Unbound) : bytes.checkedPeek = .ok bytes.peek :=
  if_neg fun moved => moved.2 unbound.tail

/-- Nothing is stored and nothing is counted as dropped. -/
theorem checkedPush (unbound : bytes.Unbound) (s : List UInt8) :
    bytes.checkedPush s = .ok (0, bytes) :=
  if_pos (Or.inl unbound.storage)

theorem checkedRead_succ (unbound : bytes.Unbound) (n : Nat) :
    bytes.checkedRead (n + 1) = .error .divideByZero := by
  rw [checkedRead, checkedReadLoop, if_neg (Nat.succ_ne_zero n), unbound.checkedCount]
  rfl

end Unbound

end Unbound

end ByteRing

/-! ### Rows of calls -/

inductive MemberCall where
  | push (s : List UInt8)
  | read (n : Nat)
  | peek
  | drop (n : Nat)
  | count
  | free
  | setPolicy (policy : Policy) (keep : Nat)
deriving DecidableEq, Repr

namespace MemberCall

/-- The bytes that an unbound ring has to report as dropped. -/
def offered : MemberCall → Nat
  | .push s => s.length
  | _ => 0

/-- The calls that meet the guards of an unbound ring, and lose nothing there. -/
def Spares : MemberCall → Prop
  | .push s => s = []
  | .read n => n = 0
  | .drop _ => False
  | .count => False
  | _ => True

end MemberCall

namespace ByteRing

variable {cap : Nat} {bytes : ByteRing cap}

/-- A call: the number of bytes that it reports as dropped, and the ring after it. -/
def checkedCall (bytes : ByteRing cap) : MemberCall → Except Fault (Nat × ByteRing cap)
  | .push s => bytes.checkedPush s
  | .read n => do
      let got ← bytes.checkedRead n
      return (0, got.2)
  | .peek => do
      let _ ← bytes.checkedPeek
      return (0, bytes)
  | .drop n => do
      let dropped ← bytes.checkedDrop n
      return (0, dropped)
  | .count => do
      let _ ← bytes.checkedCount
      return (0, bytes)
  | .free => do
      let _ ← bytes.checkedFree
      return (0, bytes)
  | .setPolicy policy keep => return (0, bytes.setPolicy policy keep)

/-- Every call is defined, leaves the ring empty and reports all that it was offered. -/
def Harmless : ByteRing cap → List MemberCall → Prop
  | _, [] => True
  | bytes, call :: rest => ∃ after, bytes.checkedCall call = .ok (call.offered, after) ∧
      after.contents = [] ∧ Harmless after rest

/-- One call on an unbound ring: it is harmless exactly if it spares the ring, and leaves an
unbound ring. -/
theorem Unbound.checkedCall (unbound : bytes.Unbound) (call : MemberCall) :
    (call.Spares → ∃ after, bytes.checkedCall call = .ok (call.offered, after) ∧ after.Unbound) ∧
      (¬call.Spares → ∀ after, bytes.checkedCall call ≠ .ok (call.offered, after)) := by
  cases call with
  | push s =>
      rw [ByteRing.checkedCall, unbound.checkedPush]
      refine ⟨?_, ?_⟩
      · rintro rfl
        exact ⟨bytes, rfl, unbound⟩
      · intro some after same
        cases s with
        | nil => exact some rfl
        | cons byte rest => simp [MemberCall.offered] at same
  | read n =>
      refine ⟨?_, ?_⟩
      · rintro rfl
        exact ⟨bytes, rfl, unbound⟩
      · intro wanted after
        obtain ⟨m, rfl⟩ := Nat.exists_eq_succ_of_ne_zero wanted
        rw [ByteRing.checkedCall, unbound.checkedRead_succ]
        nofun
  | peek =>
      rw [ByteRing.checkedCall, unbound.checkedPeek]
      exact ⟨fun _ => ⟨bytes, rfl, unbound⟩, fun spared => absurd trivial spared⟩
  | drop n =>
      rw [ByteRing.checkedCall, unbound.checkedDrop]
      exact ⟨nofun, fun _ => nofun⟩
  | count =>
      rw [ByteRing.checkedCall, unbound.checkedCount]
      exact ⟨nofun, fun _ => nofun⟩
  | free =>
      rw [ByteRing.checkedCall, unbound.checkedFree]
      exact ⟨fun _ => ⟨bytes, rfl, unbound⟩, fun spared => absurd trivial spared⟩
  | setPolicy policy keep =>
      exact ⟨fun _ => ⟨_, rfl, unbound.setPolicy policy keep⟩, fun spared => absurd trivial spared⟩

/-- A row of calls on an unbound ring is harmless exactly if every one of them spares it. -/
theorem Unbound.harmless_calls (unbound : bytes.Unbound) (calls : List MemberCall) :
    bytes.Harmless calls ↔ ∀ call ∈ calls, call.Spares := by
  induction calls generalizing bytes with
  | nil => simp [Harmless]
  | cons call rest inductionHypothesis =>
      obtain ⟨spared, hurt⟩ := unbound.checkedCall call
      rw [Harmless, List.forall_mem_cons]
      by_cases spares : call.Spares
      · obtain ⟨after, called, still⟩ := spared spares
        simp only [called, Except.ok.injEq, Prod.mk.injEq, true_and, spares]
        constructor
        · rintro ⟨_, rfl, -, later⟩
          exact (inductionHypothesis still).mp later
        · exact fun later => ⟨after, rfl, still.contents, (inductionHypothesis still).mpr later⟩
      · exact ⟨fun ⟨after, called, _⟩ => absurd called (hurt spares after),
          fun all => absurd all.1 spares⟩

end ByteRing

/-! ### Passes of Poll -/

/-- One bulk read: what `AtFilter` leaves of it, and the policy that an AT command in it
sets. -/
structure FilteredRead where
  filt : Bytes
  sets : Option (Policy × Nat)
deriving DecidableEq, Repr

/-- One pass of `Poll`: what `ServiceSpeedTest` says, the reads for which
`Serial.available()` is not 0, and the link as it is then. -/
structure PollPass (R : Nat) where
  speedTest : Bool
  reads : List FilteredRead
  link : Link R

namespace Ingest

variable {cap R : Nat}

/-- The loop condition of the bulk read, past `Serial.available()`. -/
def checkedMayRead (host : Ingest cap) (keepAll : Bool) : Except Fault Bool := do
  if keepAll = false then return true
  let free ← host.ring.checkedFree
  return ingestLowFree < free

def applied (ring : ByteRing cap) : Option (Policy × Nat) → ByteRing cap
  | none => ring
  | some (policy, keep) => ring.setPolicy policy keep

/-- `keepAll` is what `Poll` found before the loop. -/
def checkedReads (keepAll : Bool) : Ingest cap → List FilteredRead → Except Fault (Ingest cap)
  | host, [] => return host
  | host, read :: rest => do
      if ← host.checkedMayRead keepAll then
        let pushed ← (applied host.ring read.sets).checkedPush read.filt
        checkedReads keepAll
          { host with
            ring := pushed.2
            ingestDrop := host.ingestDrop + UInt32.ofNat pushed.1
            passed := host.passed ++ read.filt } rest
      else return host

def checkedFeedLoop : Nat → Ingest cap → Link R → Except Fault (Ingest cap × Link R)
  | 0, host, link => return (host, link)
  | fuel + 1, host, link => do
      let count ← host.ring.checkedCount
      if 0 < count then
        let run ← host.ring.checkedPeek
        let written := link.write run
        let ring ← host.ring.checkedDrop written.1
        let fed := { host with
          ring := ring
          hostIn := host.hostIn + UInt32.ofNat written.1
          handed := host.handed ++ run.take written.1 }
        if written.1 < run.length then return (fed, written.2)
        else checkedFeedLoop fuel fed written.2
      else return (host, link)

/-- Each round takes a byte or stops. -/
def checkedIngestToLink (host : Ingest cap) (link : Link R) :
    Except Fault (Ingest cap × Link R) :=
  checkedFeedLoop (host.ring.count + 1) host link

def checkedPoll (host : Ingest cap) (pass : PollPass R) : Except Fault (Ingest cap) := do
  if pass.speedTest then return host
  let read ← checkedReads (host.ring.policy = .keepAll) host pass.reads
  let fed ← read.checkedIngestToLink pass.link
  return fed.1

/-- On bound storage the checked feeding is the feeding. -/
theorem checkedIngestToLink_eq (positive : 0 < cap) (host : Ingest cap) (link : Link R) :
    host.checkedIngestToLink link = .ok (host.ingestToLink link) := by
  suffices looped : ∀ fuel (host : Ingest cap) (link : Link R),
      checkedFeedLoop fuel host link = .ok (feedLoop fuel host link) from looped _ host link
  intro fuel
  induction fuel with
  | zero => exact fun _ _ => rfl
  | succ fuel inductionHypothesis =>
      intro host link
      rw [checkedFeedLoop, feedLoop, ByteRing.checkedCount_eq positive,
        ByteRing.checkedPeek_eq positive]
      by_cases stored : 0 < host.ring.count
      · simp only [bind, Except.bind, if_pos stored, ByteRing.checkedDrop_eq positive,
          inductionHypothesis]
        split <;> rfl
      · simp only [bind, Except.bind, if_neg stored]
        rfl

/-- On bound storage no pass faults. -/
theorem checkedPoll_bound (positive : 0 < cap) (host : Ingest cap) (pass : PollPass R) :
    ∃ next, host.checkedPoll pass = .ok next := by
  have reading : ∀ keepAll (reads : List FilteredRead) (host : Ingest cap),
      ∃ next, checkedReads keepAll host reads = .ok next := by
    intro keepAll reads
    induction reads with
    | nil => exact fun host => ⟨host, rfl⟩
    | cons read rest inductionHypothesis =>
        intro host
        have may : ∃ may, host.checkedMayRead keepAll = .ok may := by
          rw [checkedMayRead, ByteRing.checkedFree_eq positive]
          split <;> exact ⟨_, rfl⟩
        obtain ⟨may, asked⟩ := may
        rw [checkedReads, asked, ByteRing.checkedPush_eq]
        cases may with
        | true => exact inductionHypothesis _
        | false => exact ⟨host, rfl⟩
  rw [checkedPoll]
  split
  · exact ⟨host, rfl⟩
  · obtain ⟨next, read⟩ := reading (host.ring.policy = .keepAll) pass.reads host
    rw [read]
    simp only [bind, Except.bind, checkedIngestToLink_eq positive]
    exact ⟨_, rfl⟩

/-- Without storage the reads do not fault, and they bind none. -/
theorem checkedReads_unbound {host : Ingest cap} (unbound : host.ring.Unbound) (keepAll : Bool)
    (reads : List FilteredRead) :
    ∃ next, checkedReads keepAll host reads = .ok next ∧ next.ring.Unbound := by
  induction reads generalizing host with
  | nil => exact ⟨host, rfl, unbound⟩
  | cons read rest inductionHypothesis =>
      have set : (applied host.ring read.sets).Unbound := by
        cases read.sets with
        | none => exact unbound
        | some sets => exact unbound.setPolicy sets.1 sets.2
      rw [checkedReads, checkedMayRead, unbound.checkedFree, set.checkedPush]
      cases keepAll with
      | true => exact ⟨host, rfl, unbound⟩
      | false => exact inductionHypothesis set

/-- The first look at the ring ends the pass. -/
theorem checkedPoll_unbound {host : Ingest cap} (unbound : host.ring.Unbound)
    {pass : PollPass R} (ordinary : pass.speedTest = false) :
    host.checkedPoll pass = .error .divideByZero := by
  obtain ⟨next, read, still⟩ :=
    checkedReads_unbound unbound (host.ring.policy = .keepAll) pass.reads
  rw [checkedPoll, ordinary, read]
  simp only [Bool.false_eq_true, if_false, bind, Except.bind, checkedIngestToLink,
    checkedFeedLoop, still.checkedCount]

/-- Every pass of the run is defined, the ring is empty at its end, and the drop counter shows
all that passed the filter. -/
def Harmless (host : Ingest cap) (passes : List (PollPass R)) : Prop :=
  ∃ final, passes.foldlM checkedPoll host = .ok final ∧ final.ring.contents = [] ∧
    final.ingestDrop = UInt32.ofNat final.passed.length

/-- A run on an unbound ring is harmless exactly if a speed test takes every pass. -/
theorem harmless_passes {host : Ingest cap} (unbound : host.ring.Unbound)
    (honest : host.ingestDrop = UInt32.ofNat host.passed.length) (passes : List (PollPass R)) :
    host.Harmless passes ↔ ∀ pass ∈ passes, pass.speedTest = true := by
  induction passes with
  | nil =>
      simp only [List.not_mem_nil, false_imp_iff, implies_true, iff_true]
      exact ⟨host, rfl, unbound.contents, honest⟩
  | cons pass rest inductionHypothesis =>
      rw [Harmless, List.foldlM_cons, List.forall_mem_cons]
      cases tested : pass.speedTest with
      | true =>
          have kept : host.checkedPoll pass = .ok host := by
            rw [checkedPoll, tested]
            rfl
          rw [kept]
          simp only [true_and]
          exact inductionHypothesis
      | false =>
          rw [checkedPoll_unbound unbound tested]
          exact ⟨nofun, nofun⟩

/-! ### The allocation -/

def ingestWantBytes : Nat := 2 * 1024 * 1024

/-- Cells for the bytes asked for, unless the heap has not enough of them. -/
abbrev Allocator := Nat → Option (Nat → UInt8)

/-- PSRAM, or else internal RAM. -/
def allocIngest (psMalloc malloc : Allocator) (want fallback : Nat) :
    Option (Nat → UInt8) × Nat :=
  match psMalloc want with
  | some cells => (some cells, want)
  | none => (malloc fallback, if (malloc fallback).isSome then fallback else 0)

/-- The size of the storage and the ring that is bound to it. -/
def ingestInit (psMalloc malloc : Allocator) (bufmode : Policy) (bufkeep : Nat) :
    (cap : Nat) × ByteRing cap :=
  let storage := allocIngest psMalloc malloc ingestWantBytes ingestFallBytes
  ⟨storage.2, ((ByteRing.unbound storage.2).init (storage.1.getD fun _ => 0)).setPolicy
    bufmode bufkeep⟩

/-- The host after `IngestInit`. -/
def started (psMalloc malloc : Allocator) (bufmode : Policy) (bufkeep : Nat) :
    Ingest (ingestInit psMalloc malloc bufmode bufkeep).1 :=
  { atBoot (ingestInit psMalloc malloc bufmode bufkeep).1 bufkeep with
    ring := (ingestInit psMalloc malloc bufmode bufkeep).2 }

/-- The ring is without storage exactly if both heaps refuse. -/
theorem unbound_started_iff (psMalloc malloc : Allocator) (bufmode : Policy) (bufkeep : Nat) :
    (started psMalloc malloc bufmode bufkeep).ring.Unbound ↔
      psMalloc ingestWantBytes = none ∧ malloc ingestFallBytes = none := by
  have none : (started psMalloc malloc bufmode bufkeep).ring.Unbound ↔
      (allocIngest psMalloc malloc ingestWantBytes ingestFallBytes).2 = 0 :=
    ⟨fun unbound => unbound.storage, fun nothing => ⟨nothing, rfl, rfl⟩⟩
  rw [none, allocIngest]
  cases psMalloc ingestWantBytes with
  | some cells => simp [ingestWantBytes]
  | none => cases malloc ingestFallBytes <;> simp [ingestFallBytes]

/-! ### Which uses are harmless -/

/-- On an unbound ring whose drops were all counted so far: a row of calls is harmless exactly
if no call counts, drops or reads bytes and no push carries one; a run of `Poll` exactly if a
speed test takes every pass. -/
theorem harmless_iff {host : Ingest cap} (unbound : host.ring.Unbound)
    (honest : host.ingestDrop = UInt32.ofNat host.passed.length) :
    (∀ calls, host.ring.Harmless calls ↔ ∀ call ∈ calls, call.Spares) ∧
      ∀ (R : Nat) (passes : List (PollPass R)),
        host.Harmless passes ↔ ∀ pass ∈ passes, pass.speedTest = true :=
  ⟨unbound.harmless_calls, fun _ passes => harmless_passes unbound honest passes⟩

/-- Both heaps refuse. -/
def exhausted : Allocator := fun _ => none

/-- A pass while the host sends nothing. -/
def idlePass (speedTest : Bool) : PollPass 2048 where
  speedTest := speedTest
  reads := []
  link := Link.zeroed .default

/-- The calls of `ApplyBufPolicy` and of the read loop, and a pass of a speed test. -/
theorem harmless_iff_exhausted :
    (started exhausted exhausted .keepAll 8192).ring.Harmless
        [.setPolicy .keepLatest 8192, .free, .push []] ∧
      (started exhausted exhausted .keepAll 8192).Harmless [idlePass true] := by
  obtain ⟨calls, passes⟩ := harmless_iff
    ((unbound_started_iff exhausted exhausted .keepAll 8192).mpr ⟨rfl, rfl⟩) rfl
  exact ⟨(calls _).mpr (by simp [MemberCall.Spares]), (passes _ _).mpr (by decide)⟩

/-- With both heaps exhausted the first ordinary pass divides by zero, and a push of three
bytes reports no drop. -/
theorem harmful_exhausted :
    (started exhausted exhausted .keepAll 8192).ring.Unbound ∧
      (started exhausted exhausted .keepAll 8192).checkedPoll (idlePass false) = .error .divideByZero ∧
      ¬(started exhausted exhausted .keepAll 8192).Harmless [idlePass false] ∧
      (started exhausted exhausted .keepAll 8192).ring.checkedPush [1, 2, 3] =
        .ok (0, (started exhausted exhausted .keepAll 8192).ring) ∧
      ¬(started exhausted exhausted .keepAll 8192).ring.Harmless [.push [1, 2, 3]] := by
  have unbound : (started exhausted exhausted .keepAll 8192).ring.Unbound :=
    (unbound_started_iff _ _ _ _).mpr ⟨rfl, rfl⟩
  refine ⟨unbound, checkedPoll_unbound unbound rfl, ?_, unbound.checkedPush _, ?_⟩
  · rw [harmless_passes unbound rfl]
    decide
  · rw [unbound.harmless_calls]
    simp [MemberCall.Spares]

end Ingest

end LoraSerial.Host
