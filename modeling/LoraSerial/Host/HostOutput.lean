import LoraSerial.Host.Ingest
import LoraSerial.Library.Run

/-!
Owns the output ring between the link and the host port: the pump that takes no more from the
link than the ring has room for, the replies and echoes of the console, and the drain, which
waits for no port. Proves that no push overwrites what the port has not taken, and that only a
port that is closed or opened loses bytes. Does not own the sink of the speed test.

A cell keeps the origin of its byte, which no function reads. `read` records the bytes taken
from the link, `pushed` what went into the ring, `port` what the port took and `discarded` how
many bytes were thrown away.
-/

namespace LoraSerial.Host

open Library LinkLayer

def hostTxRingBytes : Nat := 2048
def pumpChunkBytes : Nat := 240
def hostRingHeadroom : Nat := 8
def pumpReadMargin : Nat := 4

inductive Origin where
  | link
  | console
deriving DecidableEq, Repr

structure HostOutput where
  ring : RingBuffer (Origin × UInt8) hostTxRingBytes
  hostOut : UInt32
  read : Bytes
  pushed : List (Origin × UInt8)
  port : List (Origin × UInt8)
  discarded : Nat

/-- The port during one drain: whether a terminal has it open, the room it reports, and what
each write takes at most. -/
structure Port where
  connected : Bool
  available : Nat
  accepts : Nat → Nat

namespace HostOutput

variable {R : Nat}

/-- The caller sees to the room. -/
def htPush (host : HostOutput) (origin : Origin) (b : Bytes) : HostOutput :=
  { host with
    ring := host.ring.pushAll (b.map (origin, ·))
    pushed := host.pushed ++ b.map (origin, ·) }

/-! ### The port -/

/-- `while (room > 0 && HtCount() > 0)`. -/
def drainLoop : Nat → (Nat → Nat) → Nat → HostOutput → HostOutput
  | 0, _, _, host => host
  | fuel + 1, accepts, room, host =>
      if 0 < room ∧ 0 < host.ring.count then
        let chunk := min host.ring.front.length room
        let w := min (accepts 0) chunk
        let left := { host with
          ring := host.ring.drop w
          port := host.port ++ host.ring.front.take w }
        if w < chunk then left else drainLoop fuel (fun index => accepts (index + 1)) (room - w) left
      else host

/-- Without a terminal the ring is discarded. A round that goes on takes a byte. -/
def hostTxDrain (host : HostOutput) (port : Port) : HostOutput :=
  if port.connected then drainLoop (host.ring.count + 1) port.accepts port.available host
  else
    { host with
      ring := { host.ring with tail := host.ring.head }
      discarded := host.discarded + host.ring.count }

/-- What `CheckHostReconnect` does to the ring when a terminal opens the port. -/
def dropStale (host : HostOutput) : HostOutput :=
  { host with ring := host.ring.clear, discarded := host.discarded + host.ring.count }

/-! ### The console -/

def atReply : Bytes → HostOutput → HostOutput
  | [], host => host
  | c :: s, host => if host.ring.free < 2 then host else atReply s (host.htPush .console [c])

/-- The echo of a byte typed in AT mode. -/
def echo (host : HostOutput) (b : UInt8) : HostOutput :=
  if 2 < host.ring.free then host.htPush .console [b] else host

/-! ### The link -/

def pumpLoop : Nat → HostOutput → Link R → HostOutput × Link R
  | 0, host, link => (host, link)
  | fuel + 1, host, link =>
      let room := host.ring.free
      if room ≤ hostRingHeadroom then (host, link)
      else
        let taken := link.read (min (room - pumpReadMargin) pumpChunkBytes)
        if taken.1 = [] then (host, taken.2)
        else
          pumpLoop fuel
            { host.htPush .link taken.1 with
              hostOut := host.hostOut + UInt32.ofNat taken.1.length
              read := host.read ++ taken.1 } taken.2

/-- `PumpLinkOut` without the sink. A round that goes on pushes a byte. -/
def pumpLinkOut (host : HostOutput) (link : Link R) (port : Port) : HostOutput × Link R :=
  let pumped := pumpLoop (host.ring.free + 1) host link
  (pumped.1.hostTxDrain port, pumped.2)

/-! ### Runs -/

/-- The callers of the ring, in any order; between two pumps the link goes its own way. -/
inductive Use (R : Nat) where
  | pump (link : Link R) (port : Port)
  | drain (port : Port)
  | reply (s : Bytes)
  | echo (b : UInt8)
  | reconnect

def step (host : HostOutput) : Use R → HostOutput
  | .pump link port => (host.pumpLinkOut link port).1
  | .drain port => host.hostTxDrain port
  | .reply s => host.atReply s
  | .echo b => host.echo b
  | .reconnect => host.dropStale

def run (host : HostOutput) (uses : List (Use R)) : HostOutput :=
  uses.foldl step host

def boot : HostOutput where
  ring := { cells := fun _ => (.link, 0), head := 0, tail := 0 }
  hostOut := 0
  read := []
  pushed := []
  port := []
  discarded := 0

/-! ### What every use keeps -/

/-- What was pushed has left the ring, oldest first, or is in it. What left is at the port, in
order, but for the bytes thrown away. Nothing from the link was cut off. -/
structure Sound (host : HostOutput) : Prop where
  valid : host.ring.WellFormed
  kept : ∃ gone, gone ++ host.ring.contents = host.pushed ∧ host.port.Sublist gone ∧
    gone.length = host.port.length + host.discarded
  fromLink : (host.pushed.filter fun byte => byte.1 = .link).map Prod.snd = host.read

section Push

variable {host : HostOutput} {b : Bytes}

theorem contents_htPush (valid : host.ring.WellFormed) (origin : Origin)
    (room : b.length ≤ host.ring.free) :
    (host.htPush origin b).ring.contents = host.ring.contents ++ b.map (origin, ·) :=
  valid.contents_pushAll (by rw [List.length_map]; exact room)

private theorem kept_htPush (sound : host.Sound) (origin : Origin)
    (room : b.length ≤ host.ring.free) :
    ∃ gone, gone ++ (host.htPush origin b).ring.contents = (host.htPush origin b).pushed ∧
      host.port.Sublist gone ∧ gone.length = host.port.length + host.discarded := by
  rcases sound.kept with ⟨gone, kept, port, count⟩
  refine ⟨gone, ?_, port, count⟩
  rw [contents_htPush sound.valid origin room, ← List.append_assoc, kept]
  rfl

theorem Sound.console (sound : host.Sound) (room : b.length ≤ host.ring.free) :
    (host.htPush .console b).Sound where
  valid := sound.valid.pushAll _
  kept := kept_htPush sound .console room
  fromLink := by
    have none : (b.map fun byte => (Origin.console, byte)).filter
        (fun byte => byte.1 = .link) = [] := by
      simp [List.filter_map]
    simp only [htPush, List.filter_append, none, List.append_nil]
    exact sound.fromLink

theorem Sound.deliver (sound : host.Sound) (room : b.length ≤ host.ring.free) (out : UInt32) :
    { host.htPush .link b with hostOut := out, read := host.read ++ b }.Sound where
  valid := sound.valid.pushAll _
  kept := kept_htPush sound .link room
  fromLink := by
    have all : (b.map fun byte => (Origin.link, byte)).filter (fun byte => byte.1 = .link) =
        b.map fun byte => (Origin.link, byte) := by
      simp
    simp only [htPush, List.filter_append, all, List.map_append, sound.fromLink, List.map_map]
    simp [Function.comp_def]

theorem Sound.atReply (sound : host.Sound) (s : Bytes) : (host.atReply s).Sound := by
  induction s generalizing host with
  | nil => exact sound
  | cons c s inductionHypothesis =>
      rw [HostOutput.atReply]
      split
      · exact sound
      next room => exact inductionHypothesis (sound.console (by rw [List.length_singleton]; omega))

theorem Sound.echo (sound : host.Sound) (byte : UInt8) : (host.echo byte).Sound := by
  rw [HostOutput.echo]
  split
  next room => exact sound.console (by rw [List.length_singleton]; omega)
  · exact sound

end Push

/-! ### Draining -/

section Drain

variable {host : HostOutput}

theorem front_length_le (valid : host.ring.WellFormed) :
    host.ring.front.length ≤ host.ring.count := by
  have lengths := congrArg List.length valid.front_eq
  rw [List.length_take, RingBuffer.length_contents] at lengths
  omega

/-- The port takes the oldest bytes; `w` of them leave the ring. -/
theorem Sound.leave (sound : host.Sound) {w : Nat} (within : w ≤ host.ring.front.length) :
    { host with ring := host.ring.drop w, port := host.port ++ host.ring.front.take w }.Sound ∧
      (host.ring.drop w).contents = host.ring.contents.drop w ∧
      host.ring.front.take w = host.ring.contents.take w := by
  have stored := within.trans (front_length_le sound.valid)
  have rest := sound.valid.contents_drop stored
  have first : host.ring.front.take w = host.ring.contents.take w := by
    have begun := congrArg (List.take w) sound.valid.front_eq
    rwa [List.take_take, Nat.min_eq_left within] at begun
  refine ⟨⟨sound.valid.drop w, ?_, sound.fromLink⟩, rest, first⟩
  rcases sound.kept with ⟨gone, kept, port, count⟩
  refine ⟨gone ++ host.ring.contents.take w, ?_, ?_, ?_⟩
  · show gone ++ host.ring.contents.take w ++ (host.ring.drop w).contents = host.pushed
    rw [rest, List.append_assoc, List.take_append_drop, kept]
  · rw [first]
    exact port.append (List.Sublist.refl _)
  · rw [first, List.length_append, List.length_append, count]
    exact Nat.add_right_comm _ _ _

/-- The loop moves the front of the ring to the port, and all that fits if the port takes what
it says it has room for. -/
theorem drainLoop_spec (sound : host.Sound) (fuel : Nat) (accepts : Nat → Nat) (room : Nat) :
    (drainLoop fuel accepts room host).Sound ∧ ∃ n ≤ host.ring.count,
      drainLoop fuel accepts room host =
        { host with
          ring := (drainLoop fuel accepts room host).ring
          port := host.port ++ host.ring.contents.take n } ∧
      (drainLoop fuel accepts room host).ring.contents = host.ring.contents.drop n ∧
      (host.ring.count < fuel → (∀ index, room ≤ accepts index) →
        n = min room host.ring.count) := by
  induction fuel generalizing host accepts room with
  | zero =>
      exact ⟨sound, 0, Nat.zero_le _, by simp [drainLoop], rfl, fun enough =>
        absurd enough (Nat.not_lt_zero _)⟩
  | succ fuel inductionHypothesis =>
      rw [drainLoop]
      split
      next more =>
        have front := front_length_le sound.valid
        have positive := sound.valid.front_nonempty more.2
        rcases sound.leave (w := min (accepts 0) (min host.ring.front.length room))
          (by omega) with ⟨left, rest, first⟩
        dsimp only
        split
        next partly =>
          refine ⟨left, _, by omega, by rw [first], rest, fun _ all => ?_⟩
          have whole := all 0
          omega
        next whole =>
          have count := congrArg List.length rest
          rw [RingBuffer.length_contents, List.length_drop, RingBuffer.length_contents] at count
          rcases inductionHypothesis left (fun index => accepts (index + 1))
            (room - min (accepts 0) (min host.ring.front.length room)) with
            ⟨last, n, stored, frame, held, most⟩
          refine ⟨last, min (accepts 0) (min host.ring.front.length room) + n, ?_, ?_, ?_, ?_⟩
          · dsimp only at stored
            omega
          · rw [List.take_add, ← List.append_assoc, ← first, ← rest]
            exact frame
          · rw [← List.drop_drop, ← rest]
            exact held
          · intro enough all
            have taken := most (by dsimp only; omega) fun index => by
              have wide := all (index + 1)
              omega
            dsimp only at taken
            have wide := all 0
            omega
      next done =>
        refine ⟨sound, 0, Nat.zero_le _, by simp, rfl, fun _ _ => ?_⟩
        omega

theorem count_closed (ring : RingBuffer (Origin × UInt8) hostTxRingBytes) :
    ({ ring with tail := ring.head } : RingBuffer (Origin × UInt8) hostTxRingBytes).count = 0 := by
  simp [RingBuffer.count]

/-- Throwing the whole ring away. -/
private theorem Sound.empty (sound : host.Sound)
    {ring : RingBuffer (Origin × UInt8) hostTxRingBytes} (valid : ring.WellFormed)
    (none : ring.count = 0) :
    { host with ring := ring, discarded := host.discarded + host.ring.count }.Sound where
  valid := valid
  kept := by
    rcases sound.kept with ⟨gone, kept, port, count⟩
    have nothing : ring.contents = [] :=
      List.length_eq_zero_iff.mp (ring.length_contents.trans none)
    refine ⟨host.pushed, ?_, ?_, ?_⟩
    · show host.pushed ++ ring.contents = host.pushed
      rw [nothing, List.append_nil]
    · rw [← kept]
      exact port.trans (List.sublist_append_left _ _)
    · rw [← kept, List.length_append, count, RingBuffer.length_contents]
      exact Nat.add_assoc _ _ _
  fromLink := sound.fromLink

theorem Sound.hostTxDrain (sound : host.Sound) (port : Port) : (host.hostTxDrain port).Sound := by
  rw [HostOutput.hostTxDrain]
  split
  · exact (drainLoop_spec sound _ port.accepts port.available).1
  · exact sound.empty ⟨sound.valid.head_lt, sound.valid.head_lt⟩ (count_closed host.ring)

theorem Sound.dropStale (sound : host.Sound) : host.dropStale.Sound :=
  sound.empty (RingBuffer.WellFormed.clear host.ring (by decide)) (by
    simp [RingBuffer.clear, RingBuffer.count])

end Drain

/-! ### Pumping -/

section Pump

variable {host : HostOutput}

theorem length_read_le (link : Link R) (max : Nat) : (link.read max).1.length ≤ max := by
  have bounded : ∀ (max : Nat) (link : Link R), (link.readLoop max).1.length ≤ max := by
    intro max
    induction max with
    | zero => exact fun _ => Nat.le_refl 0
    | succ max inductionHypothesis =>
        intro link
        rw [Link.readLoop]
        split
        · exact Nat.succ_le_succ (inductionHypothesis _)
        · exact Nat.zero_le _
  exact bounded max link

/-- Several reads one after the other. -/
def readAll : List Nat → Link R → Bytes × Link R
  | [], link => ([], link)
  | max :: rest, link =>
      let taken := link.read max
      let later := readAll rest taken.2
      (taken.1 ++ later.1, later.2)

/-- The pump reads the link until it returns nothing or the ring is full but for its headroom,
and every byte goes into the ring. -/
theorem pumpLoop_spec (sound : host.Sound) (fuel : Nat) (link : Link R) :
    (pumpLoop fuel host link).1.Sound ∧ ∃ sizes,
      (pumpLoop fuel host link).2 = (readAll sizes link).2 ∧
      pumpLoop fuel host link =
        ({ host with
            ring := (pumpLoop fuel host link).1.ring
            hostOut := (pumpLoop fuel host link).1.hostOut
            read := host.read ++ (readAll sizes link).1
            pushed := host.pushed ++ (readAll sizes link).1.map (Origin.link, ·) },
          (readAll sizes link).2) ∧
      (host.ring.free < fuel → (pumpLoop fuel host link).1.ring.free ≤ hostRingHeadroom ∨
        ∃ before size, sizes = before ++ [size] ∧ 0 < size ∧
          ((readAll before link).2.read size).1 = []) := by
  induction fuel generalizing host link with
  | zero =>
      exact ⟨sound, [], rfl, by simp [pumpLoop, readAll], fun enough =>
        absurd enough (Nat.not_lt_zero _)⟩
  | succ fuel inductionHypothesis =>
      rw [pumpLoop]
      split
      next full => exact ⟨sound, [], rfl, by simp [readAll], fun _ => Or.inl full⟩
      next roomy =>
        rw [hostRingHeadroom, not_le] at roomy
        have short := length_read_le link (min (host.ring.free - pumpReadMargin) pumpChunkBytes)
        dsimp only
        split
        next nothing =>
          refine ⟨sound, [min (host.ring.free - pumpReadMargin) pumpChunkBytes], rfl,
            by simp [readAll, nothing], fun _ => Or.inr ⟨[], _, rfl, ?_, nothing⟩⟩
          rw [pumpReadMargin, pumpChunkBytes]
          omega
        next some =>
          have fits : (link.read (min (host.ring.free - pumpReadMargin) pumpChunkBytes)).1.length ≤
              host.ring.free := by
            omega
          rcases inductionHypothesis (sound.deliver fits _)
            (link.read (min (host.ring.free - pumpReadMargin) pumpChunkBytes)).2 with
            ⟨last, sizes, after, frame, stops⟩
          refine ⟨last, _ :: sizes, after, ?_, fun enough => ?_⟩
          · simp only [readAll, List.map_append, ← List.append_assoc]
            exact frame
          · have held := congrArg List.length (contents_htPush sound.valid .link fits)
            rw [RingBuffer.length_contents, List.length_append, RingBuffer.length_contents,
              List.length_map] at held
            have positive := List.length_pos_iff.mpr some
            refine (stops ?_).imp_right ?_
            · simp only [RingBuffer.free] at *
              omega
            · rintro ⟨before, size, rfl, most, nothing⟩
              exact ⟨_ :: before, size, rfl, most, nothing⟩

theorem Sound.pumpLinkOut (sound : host.Sound) (link : Link R) (port : Port) :
    (host.pumpLinkOut link port).1.Sound :=
  (pumpLoop_spec sound _ link).1.hostTxDrain port

end Pump

/-! ### Whole runs -/

/-- An open port throws nothing away. -/
theorem discarded_hostTxDrain {host : HostOutput} (sound : host.Sound) {port : Port}
    (connected : port.connected = true) :
    (host.hostTxDrain port).discarded = host.discarded := by
  rw [HostOutput.hostTxDrain, if_pos connected]
  rcases (drainLoop_spec sound (host.ring.count + 1) port.accepts port.available).2 with
    ⟨n, -, frame, -⟩
  rw [frame]

theorem Sound.step {host : HostOutput} (sound : host.Sound) (use : Use R) :
    (host.step use).Sound := by
  cases use with
  | pump link port => exact sound.pumpLinkOut link port
  | drain port => exact sound.hostTxDrain port
  | reply s => exact sound.atReply s
  | echo b => exact sound.echo b
  | reconnect => exact sound.dropStale

theorem Sound.run {host : HostOutput} (sound : host.Sound) (uses : List (Use R)) :
    (host.run uses).Sound := by
  induction uses generalizing host with
  | nil => exact sound
  | cons use rest inductionHypothesis => exact inductionHypothesis (sound.step use)

/-- Where nothing was thrown away, the port has what was pushed but for the ring. -/
theorem Sound.whole {host : HostOutput} (sound : host.Sound) (none : host.discarded = 0) :
    host.port ++ host.ring.contents = host.pushed := by
  rcases sound.kept with ⟨gone, kept, port, count⟩
  rw [none, Nat.add_zero] at count
  rw [port.eq_of_length count.symm, kept]

/-- A slow port: a reply waits, a part of it goes, the rest follows. -/
def slow : List (Use 64) :=
  [.reply [79, 75], .drain { connected := true, available := 64, accepts := fun _ => 1 },
    .echo 65, .drain { connected := true, available := 64, accepts := fun _ => 64 }]

example : (boot.run slow).port.map Prod.snd = [79, 75, 65] := by
  decide

end HostOutput

end LoraSerial.Host
