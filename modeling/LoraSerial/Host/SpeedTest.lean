import LoraSerial.Host.Ingest
import LoraSerial.LinkLayer.Delivery

/-!
Owns the speed test: the bytes that `ServiceSpeedTest` makes up and writes to the link, and how
it ends. Proves that a test which reports a rate has had all its bytes taken by the peer. Does
not own the numbers of the report, nor a link that is initialised again or starts a new
session.
-/

namespace LoraSerial.Host

open LinkLayer

/-! ### The bytes of a test -/

/-- `Lcg::Next` with the parameters of ANSI C. -/
def lcgNext (state : UInt32) : UInt32 :=
  state * 1103515245 + 12345

/-- So many calls of `NextByte`. -/
def lcgBytes : Nat → UInt32 → Bytes × UInt32
  | 0, state => ([], state)
  | count + 1, state =>
      let later := lcgBytes count (lcgNext state)
      ((lcgNext state >>> 16).toUInt8 :: later.1, later.2)

theorem length_lcgBytes (count : Nat) (state : UInt32) :
    (lcgBytes count state).1.length = count := by
  induction count generalizing state with
  | zero => rfl
  | succ count inductionHypothesis =>
      rw [lcgBytes, List.length_cons, inductionHypothesis]

def speedTestBaseMs : UInt32 := 20000
def speedTestMsPerByteMin : UInt32 := 4
def speedTestToaFactor : UInt32 := 4
def speedTestChunk : Nat := 256

/-- What a call of `ServiceSpeedTest` says. -/
inductive SpeedReport where
  | inactive
  | running
  | rate (bytes : Nat) (ms : UInt32)
  | timeout
deriving DecidableEq, Repr

/-- Two linked ends, with the test at the first one; `total` is zero without a test. `mark` is
what had been written when the test began, `own` what the test has written since; no function
reads them. -/
structure SpeedTest (A B : Nat) where
  world : World A B
  total : Nat
  sent : Nat
  start : UInt32
  deadline : UInt32
  gen : UInt32
  mark : Bytes
  own : Bytes

/-- `link` is a call at either end or the channel, `host` what `IngestToLink` writes: with a
test active too, since the pass of `Poll` that starts the test ends with it. -/
inductive SpeedAction where
  | link (action : Action)
  | host (d : Bytes)
  | startTest (bytes now toa : UInt32)
  | service (now : UInt32)

namespace SpeedTest

variable {A B : Nat}

def idle (world : World A B) : SpeedTest A B where
  world := world
  total := 0
  sent := 0
  start := 0
  deadline := 0
  gen := 0
  mark := []
  own := []

/-- `StartSpeedTest` on the initiator. -/
def startTest (test : SpeedTest A B) (bytes now toa : UInt32) : SpeedTest A B :=
  let budget := toa * speedTestToaFactor / UInt32.ofNat maxPay
  let msPerByte := if budget < speedTestMsPerByteMin then speedTestMsPerByteMin else budget
  { test with
    total := bytes.toNat
    sent := 0
    start := now
    deadline := now + speedTestBaseMs + bytes * msPerByte
    gen := now
    mark := test.world.a.written
    own := [] }

/-- Writes until all is written or the link takes less than it is given. -/
def feed (heatshrink : Heatshrink) : Nat → SpeedTest A B → SpeedTest A B
  | 0, test => test
  | fuel + 1, test =>
      if test.sent < test.total then
        let want := min (test.total - test.sent) speedTestChunk
        let made := lcgBytes want test.gen
        let taken := (test.world.a.link.write made.1).1
        let fed :=
          { test with
            world := test.world.step heatshrink (.call .a (.write made.1))
            sent := test.sent + taken
            gen := made.2
            own := test.own ++ made.1.take taken }
        if taken < want then fed else feed heatshrink fuel fed
      else test

def service (heatshrink : Heatshrink) (test : SpeedTest A B) (now : UInt32) :
    SpeedReport × SpeedTest A B :=
  if test.total = 0 then (.inactive, test)
  else
    let fed := test.feed heatshrink (test.total - test.sent)
    if fed.total ≤ fed.sent ∧ fed.world.a.link.hasWork = false then
      let ms := now - fed.start
      (.rate fed.total (if ms = 0 then 1 else ms), { fed with total := 0 })
    else if fed.deadline < now then (.timeout, { fed with total := 0 })
    else (.running, fed)

def step (heatshrink : Heatshrink) (test : SpeedTest A B) : SpeedAction → SpeedTest A B
  | .link (.call .a (.write _)) => test
  | .link action => { test with world := test.world.step heatshrink action }
  | .host d => { test with world := test.world.step heatshrink (.call .a (.write d)) }
  | .startTest bytes now toa => test.startTest bytes now toa
  | .service now => (test.service heatshrink now).2

def run (heatshrink : Heatshrink) (test : SpeedTest A B) (actions : List SpeedAction) :
    SpeedTest A B :=
  actions.foldl (step heatshrink) test

end SpeedTest

/-! ### What a link without work has achieved -/

section Idle

variable {S R : Nat} {heatshrink : Heatshrink} {dropped : Nat} {e : End S} {peer : End R}

/-- The peer has every byte that was written: it has been read, is in the receive ring, or is
in a frame that waits for room there. -/
def Arrived (e : End S) (peer : End R) : Prop :=
  ∃ held : List Bytes,
    e.written = peer.read ++ peer.link.rRing.contents ++ held.flatten ∧
    ∀ k < held.length, peer.link.holds (peer.link.rxNext + .ofNat k) = true ∧
      held[k]? = some (peer.link.rx (slotOf (peer.link.rxNext + .ofNat k))).buf

/-- Nothing is in flight or queued. -/
theorem arrived_of_idle (half : Half heatshrink dropped e peer) (idle : e.link.hasWork = false) :
    Arrived e peer := by
  have rested : e.link.win.length = 0 ∧ e.link.sRing.count = 0 := by
    simp only [Link.hasWork, Bool.or_eq_false_iff, decide_eq_false_iff_not, Nat.not_lt,
      Nat.le_zero_eq] at idle
    exact idle.1
  have queued : e.link.sRing.contents = [] := by
    rw [Library.RingBuffer.contents, rested.2]
    rfl
  rcases half.flows with ⟨s, flow⟩
  rcases flow.delivered with ⟨-, -, n, next, out, has⟩
  refine ⟨e.framed.drop n, ?_, fun k below => ?_⟩
  · rw [out, ← List.flatten_append, List.take_append_drop, half.accounts, queued,
      List.append_nil]
  · rw [List.length_drop] at below
    rw [next, ← UInt8.ofNat_add, List.getElem?_drop]
    rcases has (n + k) (by omega) with before | held
    · exact absurd before (Nat.not_lt.mpr (Nat.le_add_right n k))
    · exact held

end Idle

/-! ### What a test writes -/

/-- A write falls short for want of room alone. -/
theorem free_of_short {R : Nat} (link : Link R) (d : Bytes)
    (short : (link.write d).1 < d.length) : (link.write d).2.sRing.free = 0 := by
  induction d generalizing link with
  | nil => exact absurd short (Nat.not_lt_zero _)
  | cons byte rest inductionHypothesis =>
      rw [Link.write] at short ⊢
      split
      next room =>
        rw [if_pos room] at short
        exact inductionHypothesis _ (Nat.lt_of_succ_lt_succ short)
      next full => exact Nat.eq_zero_of_not_pos full

/-- Only a write of the first end adds to what it has written. -/
theorem written_step {A B : Nat} (heatshrink : Heatshrink) (world : World A B) {action : Action}
    (other : ∀ d, action ≠ .call .a (.write d)) :
    (world.step heatshrink action).a.written = world.a.written := by
  cases action with
  | call side c =>
      cases side with
      | b => rfl
      | a =>
          cases c with
          | write d => exact absurd rfl (other d)
          | _ => rfl
  | deliver sender =>
      cases sender with
      | a =>
          rw [World.step]
          split <;> rfl
      | b =>
          rw [World.step]
          split <;> rfl
  | lose sender position => cases sender <;> rfl

namespace SpeedTest

variable {A B : Nat} {heatshrink : Heatshrink} {droppedA droppedB : Nat} {test : SpeedTest A B}

/-- What the test has written is part of what was written since it began. -/
def Wrote (test : SpeedTest A B) : Prop :=
  ∃ since, test.world.a.written = test.mark ++ since ∧ test.own.Sublist since

/-- The ends are linked, and an active test has written what it says. -/
structure Sound (heatshrink : Heatshrink) (droppedA droppedB : Nat) (test : SpeedTest A B) :
    Prop where
  linked : test.world.Linked heatshrink droppedA droppedB
  least : test.total ≠ 0 → test.sent ≤ test.total
  length : test.total ≠ 0 → test.own.length = test.sent
  wrote : test.total ≠ 0 → test.Wrote

namespace Sound

theorem inactive (linked : test.world.Linked heatshrink droppedA droppedB)
    (none : test.total = 0) : test.Sound heatshrink droppedA droppedB :=
  ⟨linked, fun active => absurd none active, fun active => absurd none active,
    fun active => absurd none active⟩

/-- A write of the host's, or of the test's, which is the test's own. -/
theorem wrote_write (wrote : test.Wrote) (d : Bytes) {later : SpeedTest A B}
    (world : later.world = test.world.step heatshrink (.call .a (.write d)))
    (mark : later.mark = test.mark)
    (own : later.own = test.own ∨ later.own = test.own ++ d.take (test.world.a.link.write d).1) :
    later.Wrote := by
  rcases wrote with ⟨since, written, inside⟩
  refine ⟨since ++ d.take (test.world.a.link.write d).1, ?_, ?_⟩
  · rw [world, mark, ← List.append_assoc, ← written]
    rfl
  · rcases own with same | more
    · rw [same]
      exact inside.trans (List.sublist_append_left _ _)
    · rw [more]
      exact inside.append (List.Sublist.refl _)

/-- One write of the loop. -/
theorem write (sound : test.Sound heatshrink droppedA droppedB) (inverts : heatshrink.Inverts)
    (active : test.total ≠ 0) {d : Bytes} (within : d.length ≤ test.total - test.sent)
    (gen : UInt32) :
    Sound heatshrink droppedA droppedB
      { test with
        world := test.world.step heatshrink (.call .a (.write d))
        sent := test.sent + (test.world.a.link.write d).1
        gen := gen
        own := test.own ++ d.take (test.world.a.link.write d).1 } where
  linked := sound.linked.step inverts (.call .a (.write d))
  least _ := by
    have least := sound.least active
    have taken := Ingest.write_le test.world.a.link d
    dsimp only
    omega
  length _ := by
    have taken := Ingest.write_le test.world.a.link d
    rw [List.length_append, List.length_take, Nat.min_eq_left taken, sound.length active]
  wrote _ := wrote_write (sound.wrote active) d rfl rfl (Or.inr rfl)

theorem feed (sound : test.Sound heatshrink droppedA droppedB) (inverts : heatshrink.Inverts)
    (active : test.total ≠ 0) (fuel : Nat) :
    (test.feed heatshrink fuel).Sound heatshrink droppedA droppedB ∧
      (test.feed heatshrink fuel).total = test.total := by
  induction fuel generalizing test with
  | zero => exact ⟨sound, rfl⟩
  | succ fuel inductionHypothesis =>
      rw [SpeedTest.feed]
      split
      · dsimp only
        have within := length_lcgBytes (min (test.total - test.sent) speedTestChunk) test.gen
        have fed := sound.write inverts active (within.trans_le (Nat.min_le_left _ _))
          (lcgBytes (min (test.total - test.sent) speedTestChunk) test.gen).2
        split
        · exact ⟨fed, rfl⟩
        · exact inductionHypothesis fed active
      · exact ⟨sound, rfl⟩

end Sound

/-- The fuel is enough: the loop ends with all bytes written, or with no room for more. -/
theorem feed_done (heatshrink : Heatshrink) {fuel : Nat}
    (enough : test.total - test.sent ≤ fuel) :
    (test.feed heatshrink fuel).total ≤ (test.feed heatshrink fuel).sent ∨
      (test.feed heatshrink fuel).world.a.link.sRing.free = 0 := by
  induction fuel generalizing test with
  | zero =>
      left
      change test.total ≤ test.sent
      omega
  | succ fuel inductionHypothesis =>
      rw [SpeedTest.feed]
      split
      next more =>
        dsimp only
        have length := length_lcgBytes (min (test.total - test.sent) speedTestChunk) test.gen
        split
        next short =>
          right
          exact free_of_short _ _ (length.symm ▸ short)
        next taken =>
          have some : 0 < min (test.total - test.sent) speedTestChunk :=
            Nat.lt_min.mpr ⟨Nat.sub_pos_of_lt more, by decide⟩
          apply inductionHypothesis
          dsimp only
          omega
      next all => exact Or.inl (Nat.not_lt.mp all)

/-- What a call of `ServiceSpeedTest` keeps, and what a rate stands for. -/
theorem Sound.service (sound : test.Sound heatshrink droppedA droppedB)
    (inverts : heatshrink.Inverts) (now : UInt32) :
    let served := test.service heatshrink now
    served.2.Sound heatshrink droppedA droppedB ∧ ∀ bytes ms, served.1 = .rate bytes ms →
      served.2.own.length = bytes ∧ served.2.Wrote ∧
      Arrived served.2.world.a served.2.world.b := by
  dsimp only [SpeedTest.service]
  split
  · exact ⟨sound, nofun⟩
  next active =>
    rcases sound.feed inverts active (test.total - test.sent) with ⟨fed, same⟩
    split
    next finished =>
      refine ⟨Sound.inactive fed.linked rfl, fun bytes ms report => ?_⟩
      cases report
      have still : (test.feed heatshrink (test.total - test.sent)).total ≠ 0 := by
        rw [same]
        exact active
      refine ⟨?_, fed.wrote still, arrived_of_idle fed.linked.forth finished.2⟩
      exact (fed.length still).trans (Nat.le_antisymm (fed.least still) finished.1)
    · split
      · exact ⟨Sound.inactive fed.linked rfl, nofun⟩
      · exact ⟨fed, nofun⟩

theorem Sound.step (sound : test.Sound heatshrink droppedA droppedB)
    (inverts : heatshrink.Inverts) (action : SpeedAction) :
    (test.step heatshrink action).Sound heatshrink droppedA droppedB := by
  unfold SpeedTest.step
  split
  · exact sound
  next action other =>
    refine ⟨sound.linked.step inverts action, sound.least, sound.length, fun active => ?_⟩
    rcases sound.wrote active with ⟨since, written, inside⟩
    refine ⟨since, ?_, inside⟩
    rw [← written]
    exact written_step heatshrink test.world fun d same => other d same
  next d =>
    exact ⟨sound.linked.step inverts (.call .a (.write d)), sound.least, sound.length,
      fun active => wrote_write (sound.wrote active) d rfl rfl (Or.inl rfl)⟩
  · exact ⟨sound.linked, fun _ => Nat.zero_le _, fun _ => rfl,
      fun _ => ⟨[], (List.append_nil _).symm, List.nil_sublist _⟩⟩
  · exact (sound.service inverts _).1

/-- Between two ends initialised once with the same key and tag length, after any run of host
writes, tests, turns, arrivals and losses: when `ServiceSpeedTest` reports a rate for so many
bytes, the test wrote that many since it began, and the peer has everything that was ever
written. -/
theorem reported_run (inverts : heatshrink.Inverts) (positiveA : 0 < A) (positiveB : 0 < B)
    (memoryA : Link A) (memoryB : Link B) {configA configB : Config}
    (key : configB.key = configA.key)
    (tagLen : (Link.clampConfig configB).tagLen = (Link.clampConfig configA).tagLen)
    (actions : List SpeedAction) (now : UInt32) :
    let test := (idle (World.start memoryA memoryB configA configB)).run heatshrink actions
    let served := test.service heatshrink now
    ∀ bytes ms, served.1 = .rate bytes ms →
      served.2.own.length = bytes ∧ served.2.Wrote ∧
      Arrived served.2.world.a served.2.world.b := by
  intro test served
  have start : (idle (World.start memoryA memoryB configA configB)).Sound heatshrink
      memoryA.rDropped memoryB.rDropped :=
    Sound.inactive (World.linked_run_start inverts positiveA positiveB memoryA memoryB key tagLen
      []) rfl
  have sound : test.Sound heatshrink memoryA.rDropped memoryB.rDropped :=
    List.foldlRecOn actions (step heatshrink) start fun _ sound action _ =>
      sound.step inverts action
  exact (sound.service inverts now).2

/-- A test of three bytes, and two of the host's in the pass that starts it, up to the
acknowledgement. -/
def shortTest : SpeedTest 64 300 :=
  (idle (World.start (Link.zeroed Config.default) (Link.zeroed Config.default)
    (World.pairConfig 1 2 7) (World.pairConfig 2 1 9))).run Heatshrink.copying
    [.startTest 3 0 100, .host [104, 105], .service 1, .link (.call .a (.nextTx 255 2)),
      .link (.deliver .a), .link (.call .b (.makePoll 255)), .link (.deliver .b)]

theorem reported_run_short :
    (shortTest.service Heatshrink.copying 50).1 = .rate 3 50 ∧
      Arrived (shortTest.service Heatshrink.copying 50).2.world.a
        (shortTest.service Heatshrink.copying 50).2.world.b := by
  have report : (shortTest.service Heatshrink.copying 50).1 = .rate 3 50 := by decide +kernel
  refine ⟨report, ?_⟩
  unfold shortTest at report ⊢
  exact (reported_run Heatshrink.copying_inverts (by decide) (by decide)
    (Link.zeroed Config.default) (Link.zeroed Config.default) (by rfl) (by decide) _ 50
    3 50 report).2.2

end SpeedTest

end LoraSerial.Host
