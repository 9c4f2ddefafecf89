import LoraSerial.Host.ByteRing
import LoraSerial.LinkLayer.Link

/-!
Owns the path of host bytes to the link outside AT mode: the bulk read with its
back-pressure guard, the escape filter, the ingest ring and the feeding of the link.
Proves when the ring loses nothing under `keepall`. Does not own AT mode or the speed
test: a run ends when AT mode is entered.

`incoming` is what the host has sent and nobody has read; `passed` and `handed` record
the bytes that left the filter and the bytes that the link took.
-/

namespace LoraSerial.Host

open Library LinkLayer

def ingestLowFree : Nat := 8
def bulkReadBytes : Nat := 512
def escapePlusCount : UInt8 := 3
def escapeGuardMs : UInt32 := 1000
def plus : UInt8 := 0x2B

structure Ingest (cap : Nat) where
  ring : ByteRing cap
  ingestDrop : UInt32
  atPlus : UInt8
  atPlusAt : UInt32
  atLastData : UInt32
  hostIn : UInt32
  incoming : Bytes
  passed : Bytes
  handed : Bytes

/-- One bulk read: what `Serial.read` returns, bounded by the request, and the clock at
every byte. -/
structure BulkRead where
  size : Nat
  clock : Nat → UInt32

/-- One pass of `Poll`: what the host sent since the last one, the clock, the reads for
which `Serial.available()` is not 0, and the link as it is then. -/
structure Pass (R : Nat) where
  arrived : Bytes
  now : UInt32
  reads : List BulkRead
  link : Link R

namespace Ingest

variable {cap R : Nat}

/-! ### The escape filter -/

/-- One byte of `AtFilter` outside AT mode. -/
def filterByte (host : Ingest cap) (byte : UInt8) (now : UInt32) : Bytes × Ingest cap :=
  if byte = plus ∧ (0 < host.atPlus ∨ escapeGuardMs ≤ now - host.atLastData) then
    if host.atPlus < escapePlusCount then
      ([], { host with atPlus := host.atPlus + 1, atPlusAt := now })
    else ([], host)
  else
    (List.replicate host.atPlus.toNat plus ++ [byte],
      { host with atPlus := 0, atLastData := now })

def atFilter (host : Ingest cap) : Bytes → (Nat → UInt32) → Bytes × Ingest cap
  | [], _ => ([], host)
  | byte :: rest, clock =>
      let first := host.filterByte byte (clock 0)
      let later := first.2.atFilter rest fun index => clock (index + 1)
      (first.1 ++ later.1, later.2)

/-! ### Reading -/

/-- The loop condition of the bulk read. -/
def mayRead (host : Ingest cap) : Bool :=
  0 < host.incoming.length &&
    (host.ring.policy ≠ .keepAll || ingestLowFree < host.ring.free)

/-- What one read returns. -/
def readSize (host : Ingest cap) (read : BulkRead) : Nat :=
  min read.size (min bulkReadBytes host.incoming.length)

/-- The bytes of one read that pass the filter, and the filter after them. -/
def filtered (host : Ingest cap) (read : BulkRead) : Bytes × Ingest cap :=
  host.atFilter (host.incoming.take (host.readSize read)) read.clock

/-- Body of the read loop. -/
def readOnce (host : Ingest cap) (read : BulkRead) : Ingest cap :=
  let filt := host.filtered read
  let pushed := filt.2.ring.push filt.1
  { filt.2 with
    ring := pushed.2
    ingestDrop := host.ingestDrop + UInt32.ofNat pushed.1
    incoming := host.incoming.drop (host.readSize read)
    passed := host.passed ++ filt.1 }

def readLoop : Ingest cap → List BulkRead → Ingest cap
  | host, [] => host
  | host, read :: rest =>
      if host.mayRead then
        if host.readSize read = 0 then host else (host.readOnce read).readLoop rest
      else host

/-! ### Feeding the link -/

def feedLoop : Nat → Ingest cap → Link R → Ingest cap × Link R
  | 0, host, link => (host, link)
  | fuel + 1, host, link =>
      if 0 < host.ring.count then
        let run := host.ring.peek
        let written := link.write run
        let fed := { host with
          ring := host.ring.drop written.1
          hostIn := host.hostIn + UInt32.ofNat written.1
          handed := host.handed ++ run.take written.1 }
        if written.1 < run.length then (fed, written.2) else feedLoop fuel fed written.2
      else (host, link)

/-- Each round takes a byte or stops. -/
def ingestToLink (host : Ingest cap) (link : Link R) : Ingest cap × Link R :=
  feedLoop (host.ring.count + 1) host link

/-! ### Passes -/

/-- `AtTick` enters AT mode. -/
def escapes (host : Ingest cap) (now : UInt32) : Bool :=
  escapePlusCount ≤ host.atPlus && escapeGuardMs ≤ now - host.atPlusAt

def arrive (host : Ingest cap) (bytes : Bytes) : Ingest cap :=
  { host with incoming := host.incoming ++ bytes }

def poll (host : Ingest cap) (pass : Pass R) : Option (Ingest cap) :=
  if host.escapes pass.now then none
  else some (((host.arrive pass.arrived).readLoop pass.reads).ingestToLink pass.link).1

def run (host : Ingest cap) : List (Pass R) → Option (Ingest cap)
  | [] => some host
  | pass :: rest =>
      match host.poll pass with
      | none => none
      | some next => next.run rest

/-! ### What keepall promises -/

/-- Handed bytes and queued bytes are the passed ones, and no drop is counted. -/
def LosesNothing (host : Ingest cap) : Prop :=
  host.handed ++ host.ring.contents = host.passed ∧ host.ingestDrop = 0

/-- The output of one read fits into the ring. -/
def Fits (host : Ingest cap) (read : BulkRead) : Prop :=
  (host.filtered read).1.length ≤ host.ring.free

def ReadsFit : Ingest cap → List BulkRead → Prop
  | _, [] => True
  | host, read :: rest =>
      host.mayRead = true → host.readSize read ≠ 0 →
        host.Fits read ∧ (host.readOnce read).ReadsFit rest

/-- The output of every read of the run fits into the ring. -/
def AllFit : Ingest cap → List (Pass R) → Prop
  | _, [] => True
  | host, pass :: rest =>
      (host.arrive pass.arrived).ReadsFit pass.reads ∧
        ∀ next, host.poll pass = some next → next.AllFit rest

/-! ### Frames -/

/-- The filter touches only the escape state. -/
theorem atFilter_frame (host : Ingest cap) (bytes : Bytes) (clock : Nat → UInt32) :
    ∃ plusses plusAt lastData, (host.atFilter bytes clock).2 =
      { host with atPlus := plusses, atPlusAt := plusAt, atLastData := lastData } := by
  induction bytes generalizing host clock with
  | nil => exact ⟨host.atPlus, host.atPlusAt, host.atLastData, rfl⟩
  | cons byte rest inductionHypothesis =>
      rw [atFilter]
      obtain ⟨_, _, _, later⟩ := inductionHypothesis (host.filterByte byte (clock 0)).2
        fun index => clock (index + 1)
      have first : ∃ plusses plusAt lastData, (host.filterByte byte (clock 0)).2 =
          { host with atPlus := plusses, atPlusAt := plusAt, atLastData := lastData } := by
        unfold filterByte
        split
        · split
          · exact ⟨_, _, host.atLastData, rfl⟩
          · exact ⟨host.atPlus, host.atPlusAt, host.atLastData, rfl⟩
        · exact ⟨0, host.atPlusAt, _, rfl⟩
      obtain ⟨_, _, _, first⟩ := first
      rw [later, first]
      exact ⟨_, _, _, rfl⟩

theorem filtered_ring (host : Ingest cap) (read : BulkRead) :
    (host.filtered read).2.ring = host.ring := by
  obtain ⟨_, _, _, same⟩ :=
    host.atFilter_frame (host.incoming.take (host.readSize read)) read.clock
  rw [filtered, same]

/-- `Write` takes a prefix of its bytes. -/
theorem write_le (link : Link R) (d : Bytes) : (link.write d).1 ≤ d.length := by
  induction d generalizing link with
  | nil => exact Nat.le_refl 0
  | cons byte rest inductionHypothesis =>
      rw [Link.write]
      split
      · exact Nat.succ_le_succ (inductionHypothesis _)
      · exact Nat.zero_le _

/-- It takes fewer only when the link's queue is full. -/
theorem write_full (link : Link R) {d : Bytes} (partly : (link.write d).1 < d.length) :
    (link.write d).2.sRing.free = 0 := by
  induction d generalizing link with
  | nil => exact absurd partly (Nat.lt_irrefl 0)
  | cons byte rest inductionHypothesis =>
      rw [Link.write] at partly ⊢
      split at partly
      next room =>
        rw [if_pos room]
        exact inductionHypothesis _ (Nat.lt_of_succ_lt_succ partly)
      next full =>
        rw [if_neg full]
        exact Nat.eq_zero_of_not_pos full

/-! ### Invariant -/

/-- The ring is bound and keeps everything. -/
structure Bound (host : Ingest cap) : Prop where
  valid : host.ring.ring.WellFormed
  keepAll : host.ring.policy = .keepAll

/-- Fewer bytes were handed on or are queued than passed the filter. -/
def Lost (host : Ingest cap) : Prop :=
  host.handed.length + host.ring.count < host.passed.length

theorem Lost.loses {host : Ingest cap} (lost : host.Lost) : ¬host.LosesNothing := by
  rintro ⟨kept, -⟩
  have lengths := congrArg List.length kept
  have held : host.ring.contents.length = host.ring.count := host.ring.ring.length_contents
  rw [List.length_append, held] at lengths
  unfold Lost at lost
  omega

section Reading

variable {host : Ingest cap} {read : BulkRead}

theorem Bound.readOnce (bound : host.Bound) : (host.readOnce read).Bound := by
  have pushed := ByteRing.push_keepAll bound.valid bound.keepAll (host.filtered read).1
  rw [← host.filtered_ring read] at pushed
  exact ⟨pushed.2.1, pushed.2.2.1⟩

theorem contents_readOnce (bound : host.Bound) (read : BulkRead) :
    (host.readOnce read).ring.contents =
      host.ring.contents ++ (host.filtered read).1.take host.ring.free := by
  have pushed := ByteRing.push_keepAll bound.valid bound.keepAll (host.filtered read).1
  simp only [Ingest.readOnce, filtered_ring]
  exact pushed.2.2.2

theorem handed_readOnce (host : Ingest cap) (read : BulkRead) :
    (host.readOnce read).handed = host.handed := by
  obtain ⟨_, _, _, same⟩ :=
    host.atFilter_frame (host.incoming.take (host.readSize read)) read.clock
  simp only [Ingest.readOnce, filtered, same]

/-- A read that fits loses nothing. -/
theorem LosesNothing.readOnce (bound : host.Bound) (kept : host.LosesNothing)
    (fits : host.Fits read) : (host.readOnce read).LosesNothing := by
  constructor
  · rw [handed_readOnce, contents_readOnce bound read, List.take_of_length_le fits,
      ← List.append_assoc, kept.1]
    rfl
  · have dropped := (ByteRing.push_keepAll bound.valid bound.keepAll (host.filtered read).1).1
    have none : (host.filtered read).1.length - host.ring.free = 0 := by
      unfold Fits at fits
      omega
    simp only [Ingest.readOnce, filtered_ring, dropped, none, kept.2]
    rfl

/-- A read that does not fit loses bytes for good. -/
theorem lost_readOnce (bound : host.Bound)
    (short : host.handed.length + host.ring.count ≤ host.passed.length)
    (behind : host.Lost ∨ ¬host.Fits read) : (host.readOnce read).Lost := by
  have held := congrArg List.length (contents_readOnce bound read)
  have count : (host.readOnce read).ring.contents.length = (host.readOnce read).ring.count :=
    RingBuffer.length_contents _
  have count' : host.ring.contents.length = host.ring.count := RingBuffer.length_contents _
  have passed : (host.readOnce read).passed.length =
      host.passed.length + (host.filtered read).1.length := List.length_append
  rw [List.length_append, List.length_take, count, count'] at held
  unfold Lost Fits at *
  rw [handed_readOnce, passed]
  omega

theorem LosesNothing.length (kept : host.LosesNothing) :
    host.handed.length + host.ring.count = host.passed.length := by
  have held : host.ring.contents.length = host.ring.count := RingBuffer.length_contents _
  rw [← kept.1, List.length_append, held]

end Reading

theorem Bound.readLoop {host : Ingest cap} (bound : host.Bound) (reads : List BulkRead) :
    (host.readLoop reads).Bound := by
  induction reads generalizing host with
  | nil => exact bound
  | cons read rest inductionHypothesis =>
      rw [Ingest.readLoop]
      split
      · split
        · exact bound
        · exact inductionHypothesis bound.readOnce
      · exact bound

theorem Lost.readLoop {host : Ingest cap} (bound : host.Bound) (lost : host.Lost)
    (reads : List BulkRead) : (host.readLoop reads).Lost := by
  induction reads generalizing host with
  | nil => exact lost
  | cons read rest inductionHypothesis =>
      rw [Ingest.readLoop]
      split
      · split
        · exact lost
        · exact inductionHypothesis bound.readOnce
            (lost_readOnce bound (Nat.le_of_lt lost) (Or.inl lost))
      · exact lost

/-- The reads of one pass lose nothing if every one fits, and lose bytes for good
otherwise. -/
theorem readLoop_loses {host : Ingest cap} (bound : host.Bound) (kept : host.LosesNothing)
    (reads : List BulkRead) :
    (host.ReadsFit reads → (host.readLoop reads).LosesNothing) ∧
      (¬host.ReadsFit reads → (host.readLoop reads).Lost) := by
  induction reads generalizing host with
  | nil => exact ⟨fun _ => kept, fun unfit => absurd trivial unfit⟩
  | cons read rest inductionHypothesis =>
      rw [Ingest.readLoop, ReadsFit]
      split
      next may =>
        split
        next nothing =>
          exact ⟨fun _ => kept, fun unfit => absurd (fun _ some => absurd nothing some) unfit⟩
        next some =>
          simp only [may, ne_eq, some, not_false_eq_true, true_implies]
          by_cases fits : host.Fits read
          · have later := inductionHypothesis bound.readOnce (kept.readOnce bound fits)
            simpa only [fits, true_and] using later
          · have lost := lost_readOnce bound kept.length.le (Or.inr fits)
            exact ⟨fun all => absurd all.1 fits, fun _ => lost.readLoop bound.readOnce rest⟩
      next blocked =>
        exact ⟨fun _ => kept, fun unfit => absurd (fun may => absurd may blocked) unfit⟩

theorem peek_le {host : Ingest cap} (bound : host.Bound) :
    host.ring.peek.length ≤ host.ring.count := by
  have lengths := congrArg List.length bound.valid.front_eq
  rw [List.length_take, RingBuffer.length_contents] at lengths
  have shorter : host.ring.ring.front.length ≤ host.ring.ring.count := by omega
  exact shorter

/-- Feeding moves bytes from the ring to the link, in order, and changes nothing else
that is promised. -/
theorem feedLoop_moves {host : Ingest cap} (bound : host.Bound) (fuel : Nat) (link : Link R) :
    (feedLoop fuel host link).1.Bound ∧
      (feedLoop fuel host link).1.handed ++ (feedLoop fuel host link).1.ring.contents =
        host.handed ++ host.ring.contents ∧
      (feedLoop fuel host link).1.passed = host.passed ∧
      (feedLoop fuel host link).1.ingestDrop = host.ingestDrop := by
  induction fuel generalizing host link with
  | zero => exact ⟨bound, rfl, rfl, rfl⟩
  | succ fuel inductionHypothesis =>
      simp only [feedLoop]
      split
      next nonempty =>
        have taken := write_le link host.ring.peek
        have front : host.ring.peek = host.ring.contents.take host.ring.peek.length :=
          bound.valid.front_eq
        have inside := peek_le bound
        have rest : (host.ring.drop (link.write host.ring.peek).1).contents =
            host.ring.contents.drop (link.write host.ring.peek).1 :=
          bound.valid.contents_drop (taken.trans inside)
        have first : host.ring.peek.take (link.write host.ring.peek).1 =
            host.ring.contents.take (link.write host.ring.peek).1 := by
          rw [front, List.take_take, ← front, Nat.min_eq_left taken]
        have moved : host.handed ++ host.ring.peek.take (link.write host.ring.peek).1 ++
            (host.ring.drop (link.write host.ring.peek).1).contents =
            host.handed ++ host.ring.contents := by
          rw [List.append_assoc, rest, first, List.take_append_drop]
        have fed : Bound { host with
            ring := host.ring.drop (link.write host.ring.peek).1
            hostIn := host.hostIn + UInt32.ofNat (link.write host.ring.peek).1
            handed := host.handed ++ host.ring.peek.take (link.write host.ring.peek).1 } :=
          ⟨bound.valid.drop _, bound.keepAll⟩
        split
        · exact ⟨fed, moved, rfl, rfl⟩
        · obtain ⟨bound', moved', passed', drop'⟩ := inductionHypothesis fed _
          exact ⟨bound', moved'.trans moved, passed', drop'⟩
      next => exact ⟨bound, rfl, rfl, rfl⟩

theorem losesNothing_ingestToLink {host : Ingest cap} (bound : host.Bound) (link : Link R) :
    (host.ingestToLink link).1.LosesNothing ↔ host.LosesNothing := by
  obtain ⟨-, moved, passed, drop⟩ := feedLoop_moves bound (host.ring.count + 1) link
  rw [LosesNothing, LosesNothing, ingestToLink, moved, passed, drop]

theorem lost_ingestToLink {host : Ingest cap} (bound : host.Bound) (link : Link R) :
    (host.ingestToLink link).1.Lost ↔ host.Lost := by
  obtain ⟨-, moved, passed, drop⟩ := feedLoop_moves bound (host.ring.count + 1) link
  have lengths := congrArg List.length moved
  have held : ∀ host : Ingest cap, host.ring.contents.length = host.ring.count :=
    fun host => RingBuffer.length_contents _
  rw [List.length_append, List.length_append, held, held] at lengths
  rw [Lost, Lost, ingestToLink, lengths, passed]

/-- The feed loop stops because the ring is empty or the link's queue is full. -/
theorem ingestToLink_stops {host : Ingest cap} (bound : host.Bound) (link : Link R) :
    (host.ingestToLink link).1.ring.count = 0 ∨ (host.ingestToLink link).2.sRing.free = 0 := by
  suffices stops : ∀ fuel (host : Ingest cap) (link : Link R), host.Bound →
      host.ring.count < fuel → (feedLoop fuel host link).1.ring.count = 0 ∨
        (feedLoop fuel host link).2.sRing.free = 0 from stops _ host link bound (Nat.lt_succ_self _)
  intro fuel
  induction fuel with
  | zero => exact fun host _ _ enough => absurd enough (Nat.not_lt_zero _)
  | succ fuel inductionHypothesis =>
      intro host link bound enough
      simp only [feedLoop]
      split
      next nonempty =>
        split
        next partly => exact Or.inr (write_full link partly)
        next whole =>
          have front : 0 < host.ring.peek.length := bound.valid.front_nonempty nonempty
          have inside : host.ring.peek.length ≤ host.ring.count := peek_le bound
          have taken := write_le link host.ring.peek
          refine inductionHypothesis _ _ ⟨bound.valid.drop _, bound.keepAll⟩ ?_
          have left := congrArg List.length (bound.valid.contents_drop (taken.trans inside))
          rw [List.length_drop, RingBuffer.length_contents, RingBuffer.length_contents] at left
          have held : (host.ring.drop (link.write host.ring.peek).1).count =
              host.ring.count - (link.write host.ring.peek).1 := left
          dsimp only
          omega
      next empty => exact Or.inl (Nat.eq_zero_of_not_pos empty)

/-! ### Whole runs -/

theorem Bound.poll {host next : Ingest cap} (bound : host.Bound) {pass : Pass R}
    (polled : host.poll pass = some next) : next.Bound := by
  unfold Ingest.poll at polled
  split at polled
  · cases polled
  · cases polled
    have arrived : (host.arrive pass.arrived).Bound := ⟨bound.valid, bound.keepAll⟩
    exact (feedLoop_moves (arrived.readLoop pass.reads) _ pass.link).1

theorem poll_loses {host next : Ingest cap} (bound : host.Bound) {pass : Pass R}
    (polled : host.poll pass = some next) :
    (host.LosesNothing → (host.arrive pass.arrived).ReadsFit pass.reads → next.LosesNothing) ∧
      (host.LosesNothing → ¬(host.arrive pass.arrived).ReadsFit pass.reads → next.Lost) ∧
      (host.Lost → next.Lost) := by
  unfold Ingest.poll at polled
  split at polled
  · cases polled
  · cases polled
    have arrived : (host.arrive pass.arrived).Bound := ⟨bound.valid, bound.keepAll⟩
    have read := arrived.readLoop pass.reads
    rw [losesNothing_ingestToLink read, lost_ingestToLink read]
    refine ⟨fun kept => (readLoop_loses arrived kept pass.reads).1,
      fun kept => (readLoop_loses arrived kept pass.reads).2, fun lost => ?_⟩
    exact Lost.readLoop arrived lost pass.reads

theorem Lost.run {host final : Ingest cap} (bound : host.Bound) (lost : host.Lost)
    {passes : List (Pass R)} (ran : host.run passes = some final) : final.Lost := by
  induction passes generalizing host with
  | nil =>
      cases ran
      exact lost
  | cons pass rest inductionHypothesis =>
      rw [Ingest.run] at ran
      cases polled : host.poll pass with
      | none => simp [polled] at ran
      | some next =>
          rw [polled] at ran
          exact inductionHypothesis (bound.poll polled) ((poll_loses bound polled).2.2 lost) ran

/-- With `keepall` and a bound ring, in every run outside AT mode the handed bytes
followed by the queued ones are the bytes that passed the filter, and no drop is counted,
exactly if the output of every read fits into the free space of the ring. -/
theorem losesNothing_run_iff {host final : Ingest cap} (bound : host.Bound)
    (kept : host.LosesNothing) (passes : List (Pass R)) (ran : host.run passes = some final) :
    final.LosesNothing ↔ host.AllFit passes := by
  induction passes generalizing host with
  | nil =>
      cases ran
      exact ⟨fun _ => trivial, fun _ => kept⟩
  | cons pass rest inductionHypothesis =>
      rw [Ingest.run] at ran
      cases polled : host.poll pass with
      | none => simp [polled] at ran
      | some next =>
          rw [polled] at ran
          obtain ⟨keeps, loses, -⟩ := poll_loses bound polled
          have nextBound := bound.poll polled
          rw [AllFit]
          by_cases fit : (host.arrive pass.arrived).ReadsFit pass.reads
          · rw [inductionHypothesis nextBound (keeps kept fit) ran]
            refine ⟨fun later => ⟨fit, ?_⟩, fun all => all.2 next polled⟩
            intro other same
            cases polled.symm.trans same
            exact later
          · have lost := Lost.run nextBound (loses kept fit) ran
            exact ⟨fun good => absurd good lost.loses, fun all => absurd all.1 fit⟩

/-- After boot: an empty ring of `cap` bytes that keeps everything. -/
def atBoot (cap keep : Nat) : Ingest cap where
  ring := {
    ring := { cells := fun _ => 0, head := 0, tail := 0 }
    keep := keep
    policy := .keepAll }
  ingestDrop := 0
  atPlus := 0
  atPlusAt := 0
  atLastData := 0
  hostIn := 0
  incoming := []
  passed := []
  handed := []

theorem bound_atBoot {cap : Nat} (positive : 0 < cap) (keep : Nat) : (atBoot cap keep).Bound :=
  ⟨⟨positive, positive⟩, rfl⟩

theorem losesNothing_atBoot (cap keep : Nat) : (atBoot cap keep).LosesNothing := by
  simp [LosesNothing, atBoot, ByteRing.contents, RingBuffer.contents, RingBuffer.count]

/-! ### The guard is too weak -/

/-- Bytes without an escape pass the filter unchanged. -/
theorem atFilter_plain (host : Ingest cap) {bytes : Bytes} (clock : Nat → UInt32)
    (plain : ∀ byte ∈ bytes, byte ≠ plus) (noPlus : host.atPlus = 0) :
    (host.atFilter bytes clock).1 = bytes ∧ (host.atFilter bytes clock).2.atPlus = 0 := by
  induction bytes generalizing host clock with
  | nil => exact ⟨rfl, noPlus⟩
  | cons byte rest inductionHypothesis =>
      have other := plain byte List.mem_cons_self
      have first : host.filterByte byte (clock 0) =
          ([byte], { host with atPlus := 0, atLastData := clock 0 }) := by
        simp [filterByte, other, noPlus]
      obtain ⟨later, still⟩ := inductionHypothesis { host with atPlus := 0, atLastData := clock 0 }
        (fun index => clock (index + 1)) (fun b member => plain b (List.mem_cons_of_mem _ member)) rfl
      rw [atFilter, first]
      exact ⟨by rw [later]; rfl, still⟩

/-- `reads` full bulk reads of zeros wait, and the filter holds no plus sign. -/
structure Flooded (host : Ingest cap) (reads : Nat) : Prop where
  bound : host.Bound
  noPlus : host.atPlus = 0
  waiting : host.incoming = List.replicate (reads * bulkReadBytes) 0

def bulkRead : BulkRead where
  size := bulkReadBytes
  clock := fun _ => 0

namespace Flooded

variable {host : Ingest cap} {reads : Nat}

theorem readSize (flooded : host.Flooded (reads + 1)) :
    host.readSize bulkRead = bulkReadBytes := by
  rw [Ingest.readSize, flooded.waiting, List.length_replicate, Nat.succ_mul]
  simp only [bulkRead]
  omega

theorem filtered (flooded : host.Flooded (reads + 1)) :
    (host.filtered bulkRead).1 = List.replicate bulkReadBytes 0 ∧
      (host.filtered bulkRead).2.atPlus = 0 := by
  have raw : host.incoming.take (host.readSize bulkRead) = List.replicate bulkReadBytes 0 := by
    rw [flooded.readSize, flooded.waiting, List.take_replicate, Nat.succ_mul,
      Nat.min_eq_left (Nat.le_add_left _ _)]
  rw [Ingest.filtered, raw]
  exact host.atFilter_plain _ (fun byte member => by
    rw [List.eq_of_mem_replicate member]
    decide) flooded.noPlus

theorem readOnce (flooded : host.Flooded (reads + 1)) :
    (host.readOnce bulkRead).Flooded reads where
  bound := flooded.bound.readOnce
  noPlus := flooded.filtered.2
  waiting := by
    simp only [Ingest.readOnce]
    rw [flooded.readSize, flooded.waiting, List.drop_replicate, Nat.succ_mul, Nat.add_sub_cancel]

/-- The read that meets the remainder of the ring does not fit: between 9 and 511 bytes
are free, enough for the guard. -/
theorem not_readsFit (flooded : host.Flooded (reads + 1)) {rest : Nat}
    (free : host.ring.free = reads * bulkReadBytes + rest) (passes : ingestLowFree < rest)
    (short : rest < bulkReadBytes) :
    ¬host.ReadsFit (List.replicate (reads + 1) bulkRead) := by
  induction reads generalizing host with
  | zero =>
      intro fit
      have may : host.mayRead = true := by
        have room : ingestLowFree < 0 * bulkReadBytes + rest := by omega
        rw [mayRead, flooded.waiting, List.length_replicate, free, Bool.and_eq_true,
          Bool.or_eq_true]
        exact ⟨by simp [bulkReadBytes], Or.inr (decide_eq_true room)⟩
      have inside := (fit may (by rw [flooded.readSize]; decide)).1
      rw [Fits, flooded.filtered.1, List.length_replicate, free] at inside
      omega
  | succ reads inductionHypothesis =>
      intro fit
      have may : host.mayRead = true := by
        have room : ingestLowFree < (reads + 1) * bulkReadBytes + rest := by omega
        rw [mayRead, flooded.waiting, List.length_replicate, free, Bool.and_eq_true,
          Bool.or_eq_true]
        exact ⟨by simp [bulkReadBytes], Or.inr (decide_eq_true room)⟩
      have later := (fit may (by rw [flooded.readSize]; decide)).2
      refine inductionHypothesis flooded.readOnce ?_ later
      have held := congrArg List.length (contents_readOnce flooded.bound bulkRead)
      have bound : cap ≠ 0 := Nat.ne_of_gt (Nat.zero_lt_of_lt flooded.bound.valid.head_lt)
      rw [List.length_append, List.length_take, flooded.filtered.1, List.length_replicate] at held
      simp only [ByteRing.contents, RingBuffer.length_contents] at held
      simp only [ByteRing.free, if_neg bound, RingBuffer.free] at free held ⊢
      rw [Nat.succ_mul] at free
      omega

end Flooded

/-- The host writes `reads` full bulk reads of zeros, all waiting at once. -/
def flood (reads : Nat) : Pass 2048 where
  arrived := List.replicate (reads * bulkReadBytes) 0
  now := 0
  reads := List.replicate reads bulkRead
  link := Link.zeroed .default

/-- Whatever the size of the ring, a flood loses bytes if it leaves a remainder that the
guard lets through. -/
theorem flood_loses (reads rest : Nat) {keep : Nat} (passes : ingestLowFree < rest)
    (short : rest < bulkReadBytes) {final : Ingest (reads * bulkReadBytes + rest + 1)}
    (ran : (atBoot (reads * bulkReadBytes + rest + 1) keep).run [flood (reads + 1)] = some final) :
    ¬final.LosesNothing := by
  have bound := bound_atBoot (Nat.succ_pos (reads * bulkReadBytes + rest)) keep
  rw [losesNothing_run_iff bound (losesNothing_atBoot _ keep) _ ran]
  intro fit
  have flooded : ((atBoot (reads * bulkReadBytes + rest + 1) keep).arrive
      (flood (reads + 1)).arrived).Flooded (reads + 1) :=
    ⟨⟨bound.valid, bound.keepAll⟩, rfl, List.nil_append _⟩
  refine flooded.not_readsFit ?_ passes short fit.1
  simp [arrive, atBoot, ByteRing.free, RingBuffer.free, RingBuffer.count]

theorem run_of_quiet {host : Ingest cap} {pass : Pass R}
    (quiet : host.escapes pass.now = false) : ∃ final, host.run [pass] = some final := by
  rw [run, poll, if_neg (by simp [quiet])]
  exact ⟨_, rfl⟩

/-- The ring used without PSRAM. -/
def ingestFallBytes : Nat := 48 * 1024

theorem flood_counts_drop :
    ∃ final, (atBoot ingestFallBytes 8192).run [flood 96] = some final ∧ ¬final.LosesNothing := by
  have quiet : (atBoot ingestFallBytes 8192).escapes (flood 96).now = false := by decide
  obtain ⟨final, ran⟩ := run_of_quiet quiet
  exact ⟨final, ran, flood_loses 95 511 (by decide) (by decide) ran⟩

/-- Two bytes written at once, after the guard time: they fit. -/
def twoBytes : Pass 2048 where
  arrived := [0x41, 0x42]
  now := 0
  reads := [{ size := 2, clock := fun _ => 2000 }]
  link := Link.zeroed .default

theorem losesNothing_run_iff_twoBytes :
    ∃ final, (atBoot ingestFallBytes 8192).run [twoBytes] = some final ∧
      (final.LosesNothing ↔ (atBoot ingestFallBytes 8192).AllFit [twoBytes]) := by
  have quiet : (atBoot ingestFallBytes 8192).escapes twoBytes.now = false := by decide
  obtain ⟨final, ran⟩ := run_of_quiet quiet
  exact ⟨final, ran, losesNothing_run_iff (bound_atBoot (by decide) 8192)
    (losesNothing_atBoot _ 8192) [twoBytes] ran⟩

end Ingest

end LoraSerial.Host
