import LoraSerial.Heatshrink.RoundTrip
import LoraSerial.Host.ByteQueue
import LoraSerial.Host.HostOutput
import LoraSerial.LinkLayer.Delivery

/-!
Owns the whole way from one host to the other: the ingest of one board, the two ends of the
link over a channel that loses frames, the output ring of the other board and its port. Proves
that what comes out of a port is what the other host sent, in order, nothing twice, and when
none of it is missing. A run ends before the first poll in which a terminal opens a port, which
restarts the link so that a frame may come out twice, or in which a host enters AT mode, whose
replies go to the port too.
-/

namespace LoraSerial.Host

open Library LinkLayer

/-! ### The bytes of a host -/

namespace Ingest

variable {cap : Nat}

/-- Every byte the host has sent, as far as it is not lost: in the link, in the ring, held back
by the filter, or not read yet. -/
def carried (host : Ingest cap) : Bytes :=
  host.handed ++ host.ring.contents ++ List.replicate host.atPlus.toNat plus ++ host.incoming

/-- The filter swallows a plus sign after three. -/
def Swallows (host : Ingest cap) (byte : UInt8) : Prop :=
  byte = plus ∧ escapePlusCount ≤ host.atPlus

/-- The filter swallows none of the bytes. -/
def PassesAll : Ingest cap → Bytes → (Nat → UInt32) → Prop
  | _, [], _ => True
  | host, byte :: rest, clock =>
      ¬host.Swallows byte ∧
        (host.filterByte byte (clock 0)).2.PassesAll rest fun index => clock (index + 1)

/-- The filter swallows nothing of the read, and the ring drops nothing. -/
def Whole (host : Ingest cap) (read : BulkRead) : Prop :=
  host.PassesAll (host.incoming.take (host.readSize read)) read.clock ∧
    (host.ring.push (host.filtered read).1).1 = 0

def ReadsWhole : Ingest cap → List BulkRead → Prop
  | _, [] => True
  | host, read :: rest =>
      host.mayRead = true → host.readSize read ≠ 0 →
        host.Whole read ∧ (host.readOnce read).ReadsWhole rest

instance decidablePassesAll : (host : Ingest cap) → (bytes : Bytes) → (clock : Nat → UInt32) →
    Decidable (host.PassesAll bytes clock)
  | _, [], _ => inferInstanceAs (Decidable True)
  | host, byte :: rest, clock =>
      have := decidablePassesAll (host.filterByte byte (clock 0)).2 rest fun index =>
        clock (index + 1)
      have : Decidable (host.Swallows byte) :=
        inferInstanceAs (Decidable (byte = plus ∧ escapePlusCount ≤ host.atPlus))
      inferInstanceAs (Decidable (_ ∧ _))

instance decidableReadsWhole : (host : Ingest cap) → (reads : List BulkRead) →
    Decidable (host.ReadsWhole reads)
  | _, [] => inferInstanceAs (Decidable True)
  | host, read :: rest =>
      have := decidableReadsWhole (host.readOnce read) rest
      have : Decidable (host.Whole read) := inferInstanceAs (Decidable (_ ∧ _))
      inferInstanceAs (Decidable (_ → _ → _ ∧ _))

end Ingest

/-! ### Boards -/

/-- One board around its end of the link; `sent` records what its host has sent. -/
structure Station (cap : Nat) where
  ingest : Ingest cap
  output : HostOutput
  wasConn : Bool
  sent : Bytes

/-- What one pass of `Poll` meets: the bytes the host has sent since the last one, whether a
terminal has the port open, the port, the clock, and the reads. -/
structure PollInput where
  arrived : Bytes
  conn : Bool
  port : Port
  now : UInt32
  reads : List BulkRead

namespace Station

variable {cap R : Nat}

/-- Nothing is returned where the run ends: at a terminal that opens the port, and at the escape
to AT mode. -/
def poll (station : Station cap) (e : End R) (input : PollInput) : Option (Station cap × End R) :=
  if input.conn ∧ !station.wasConn then none
  else if station.ingest.escapes input.now then none
  else
    let read := (station.ingest.arrive input.arrived).readLoop input.reads
    let fed := read.ingestToLink e.link
    some
      ({ ingest := fed.1
         output := station.output.hostTxDrain input.port
         wasConn := input.conn
         sent := station.sent ++ input.arrived },
        { e with
          link := fed.2
          written := e.written ++ fed.1.handed.drop read.handed.length })

def pump (station : Station cap) (e : End R) (port : Port) : Station cap × End R :=
  let pumped := station.output.pumpLinkOut e.link port
  ({ station with output := pumped.1 },
    { e with
      link := pumped.2
      read := e.read ++ pumped.1.read.drop station.output.read.length })

end Station

/-! ### Two boards -/

/-- The action moves no bytes between a board and its end. -/
def Apart : Action → Prop
  | .call _ (.write _) => False
  | .call _ (.read _) => False
  | _ => True

structure Pipe (capA capB A B : Nat) where
  a : Station capA
  b : Station capB
  world : World A B

/-- A pass of `Poll` or of the pump at one board, or a step of the turn loops and of the
channel between them. -/
inductive PipeAction where
  | poll (side : Side) (input : PollInput)
  | pump (side : Side) (port : Port)
  | link (action : Action) (apart : Apart action)

namespace Pipe

variable {capA capB A B : Nat}

def step (heatshrink : Heatshrink) (pipe : Pipe capA capB A B) :
    PipeAction → Option (Pipe capA capB A B)
  | .poll .a input =>
      (pipe.a.poll pipe.world.a input).map fun polled =>
        { pipe with a := polled.1, world := { pipe.world with a := polled.2 } }
  | .poll .b input =>
      (pipe.b.poll pipe.world.b input).map fun polled =>
        { pipe with b := polled.1, world := { pipe.world with b := polled.2 } }
  | .pump .a port =>
      let pumped := pipe.a.pump pipe.world.a port
      some { pipe with a := pumped.1, world := { pipe.world with a := pumped.2 } }
  | .pump .b port =>
      let pumped := pipe.b.pump pipe.world.b port
      some { pipe with b := pumped.1, world := { pipe.world with b := pumped.2 } }
  | .link action _ => some { pipe with world := pipe.world.step heatshrink action }

def run (heatshrink : Heatshrink) (pipe : Pipe capA capB A B) (actions : List PipeAction) :
    Option (Pipe capA capB A B) :=
  actions.foldlM (step heatshrink) pipe

/-- The action throws away nothing of what this host sends. -/
def Spares (sender : Side) (pipe : Pipe capA capB A B) : PipeAction → Prop
  | .poll .a input =>
      match sender with
      | .a => (pipe.a.ingest.arrive input.arrived).ReadsWhole input.reads
      | .b => input.port.connected = true
  | .poll .b input =>
      match sender with
      | .a => input.port.connected = true
      | .b => (pipe.b.ingest.arrive input.arrived).ReadsWhole input.reads
  | .pump side port => side = sender ∨ port.connected = true
  | .link _ _ => True

def SparesAll (heatshrink : Heatshrink) (sender : Side) :
    Pipe capA capB A B → List PipeAction → Prop
  | _, [] => True
  | pipe, action :: rest => pipe.Spares sender action ∧
      match pipe.step heatshrink action with
      | none => True
      | some next => next.SparesAll heatshrink sender rest

instance : (sender : Side) → (pipe : Pipe capA capB A B) → (action : PipeAction) →
    Decidable (pipe.Spares sender action)
  | .a, pipe, .poll .a input =>
      inferInstanceAs (Decidable ((pipe.a.ingest.arrive input.arrived).ReadsWhole input.reads))
  | .b, _, .poll .a input => inferInstanceAs (Decidable (input.port.connected = true))
  | .a, _, .poll .b input => inferInstanceAs (Decidable (input.port.connected = true))
  | .b, pipe, .poll .b input =>
      inferInstanceAs (Decidable ((pipe.b.ingest.arrive input.arrived).ReadsWhole input.reads))
  | sender, _, .pump side port =>
      inferInstanceAs (Decidable (side = sender ∨ port.connected = true))
  | _, _, .link _ _ => inferInstanceAs (Decidable True)

instance decidableSparesAll (heatshrink : Heatshrink) (sender : Side) :
    (pipe : Pipe capA capB A B) → (actions : List PipeAction) →
      Decidable (pipe.SparesAll heatshrink sender actions)
  | _, [] => inferInstanceAs (Decidable True)
  | pipe, action :: rest =>
      have : Decidable (match pipe.step heatshrink action with
          | none => True
          | some next => next.SparesAll heatshrink sender rest) :=
        match pipe.step heatshrink action with
        | none => inferInstanceAs (Decidable True)
        | some next => decidableSparesAll heatshrink sender next rest
      inferInstanceAs (Decidable (_ ∧ _))

end Pipe

/-! ### The start -/

/-- The link after `Init`, and after any sessions that it began before it heard anything. -/
inductive Started {R : Nat} (config : Config) : Link R → Prop where
  | init (memory : Link R) : Started config (memory.init config)
  | newSession {link : Link R} : Started config link → Started config link.newSession

/-- Nothing went through the link yet; what waits in the ingest counts as sent. -/
structure Station.Begins {cap R : Nat} (station : Station cap) (e : End R) (config : Config) :
    Prop where
  started : Started config e.link
  fresh : e = End.fresh e.link
  ring : station.ingest.ring.ring.WellFormed
  handed : station.ingest.handed = []
  sent : station.sent = station.ingest.carried
  output : station.output.ring.WellFormed
  empty : station.output.ring.count = 0
  unread : station.output.read = []
  unpushed : station.output.pushed = []
  unseen : station.output.port = []
  undiscarded : station.output.discarded = 0

/-- Two boards with one key and one tag length. -/
structure Pipe.Begins {capA capB A B : Nat} (pipe : Pipe capA capB A B)
    (configA configB : Config) : Prop where
  a : pipe.a.Begins pipe.world.a configA
  b : pipe.b.Begins pipe.world.b configB
  key : configB.key = configA.key
  tagLen : (Link.clampConfig configB).tagLen = (Link.clampConfig configA).tagLen

/-! ### What is under way -/

namespace ByteRing

variable {cap : Nat} {bytes : ByteRing cap}

/-- Under either policy a push may drop bytes, and changes nothing else about the queue. -/
theorem contents_push (valid : bytes.ring.WellFormed) (s : List UInt8) :
    (bytes.push s).2.contents.Sublist (bytes.contents ++ s) ∧
      ((bytes.push s).1 = 0 → (bytes.push s).2.contents = bytes.contents ++ s) := by
  cases policy : bytes.policy with
  | keepAll =>
      rcases push_keepAll valid policy s with ⟨dropped, -, -, kept⟩
      rw [kept, dropped]
      refine ⟨(List.Sublist.refl _).append (List.take_sublist _ _), fun none => ?_⟩
      rw [List.take_of_length_le (Nat.le_of_sub_eq_zero none)]
  | keepLatest =>
      rcases Nat.eq_zero_or_pos s.length with empty | nonempty
      · have nothing : bytes.push s = (0, bytes) := by
          rw [push, if_pos (Or.inr empty)]
        rw [nothing, List.length_eq_zero_iff.mp empty, List.append_nil]
        exact ⟨List.Sublist.refl _, fun _ => rfl⟩
      · rcases push_keepLatest valid policy nonempty with ⟨dropped, kept⟩
        rw [kept, dropped]
        exact ⟨List.drop_sublist _ _, fun none => by rw [none, List.drop_zero]⟩

end ByteRing

namespace Ingest

variable {cap R : Nat}

theorem filterByte_keeps (host : Ingest cap) (byte : UInt8) (now : UInt32) :
    ((host.filterByte byte now).1 ++
        List.replicate (host.filterByte byte now).2.atPlus.toNat plus).Sublist
      (List.replicate host.atPlus.toNat plus ++ [byte]) ∧
    (¬host.Swallows byte → (host.filterByte byte now).1 ++
        List.replicate (host.filterByte byte now).2.atPlus.toNat plus =
      List.replicate host.atPlus.toNat plus ++ [byte]) := by
  rw [filterByte]
  split
  next isPlus =>
    split
    next more =>
      have below : host.atPlus.toNat < 3 := UInt8.lt_iff_toNat_lt.mp more
      have count : (host.atPlus + 1).toNat = host.atPlus.toNat + 1 := by
        rw [UInt8.toNat_add]
        exact Nat.mod_eq_of_lt (by
          show host.atPlus.toNat + 1 < 256
          omega)
      have same : List.replicate (host.atPlus + 1).toNat plus =
          List.replicate host.atPlus.toNat plus ++ [byte] := by
        rw [count, List.replicate_succ', isPlus.1]
      rw [List.nil_append, same]
      exact ⟨List.Sublist.refl _, fun _ => rfl⟩
    next full =>
      refine ⟨List.sublist_append_left _ _, fun passes => absurd ⟨isPlus.1, ?_⟩ passes⟩
      exact UInt8.not_lt.mp full
  · have none : (0 : UInt8).toNat = 0 := rfl
    simp only [none, List.replicate_zero, List.append_nil]
    exact ⟨List.Sublist.refl _, fun _ => trivial⟩

theorem atFilter_keeps (host : Ingest cap) (bytes : Bytes) (clock : Nat → UInt32) :
    ((host.atFilter bytes clock).1 ++
        List.replicate (host.atFilter bytes clock).2.atPlus.toNat plus).Sublist
      (List.replicate host.atPlus.toNat plus ++ bytes) ∧
    (host.PassesAll bytes clock → (host.atFilter bytes clock).1 ++
        List.replicate (host.atFilter bytes clock).2.atPlus.toNat plus =
      List.replicate host.atPlus.toNat plus ++ bytes) := by
  induction bytes generalizing host clock with
  | nil =>
      rw [atFilter, List.append_nil]
      exact ⟨List.Sublist.refl _, fun _ => rfl⟩
  | cons byte rest inductionHypothesis =>
      rcases host.filterByte_keeps byte (clock 0) with ⟨first, wholeFirst⟩
      rcases inductionHypothesis (host.filterByte byte (clock 0)).2
        fun index => clock (index + 1) with ⟨later, wholeLater⟩
      have split : List.replicate host.atPlus.toNat plus ++ byte :: rest =
          List.replicate host.atPlus.toNat plus ++ [byte] ++ rest := by
        simp
      simp only [atFilter, List.append_assoc]
      rw [split]
      constructor
      · refine ((List.Sublist.refl _).append later).trans ?_
        rw [← List.append_assoc]
        exact first.append (List.Sublist.refl _)
      · rintro ⟨passes, passesRest⟩
        rw [wholeLater passesRest, ← List.append_assoc, wholeFirst passes]

section Reading

variable {host : Ingest cap}

theorem wellFormed_readOnce (valid : host.ring.ring.WellFormed) (read : BulkRead) :
    (host.readOnce read).ring.ring.WellFormed := by
  have pushed := ByteRing.wellFormed_push valid (host.filtered read).1
  rw [← host.filtered_ring read] at pushed
  exact pushed

/-- A read moves bytes from the host into the ring. -/
theorem carried_readOnce (valid : host.ring.ring.WellFormed) (read : BulkRead) :
    (host.readOnce read).carried.Sublist host.carried ∧
      (host.Whole read → (host.readOnce read).carried = host.carried) := by
  rcases host.atFilter_keeps (host.incoming.take (host.readSize read)) read.clock with
    ⟨filtered, wholeFiltered⟩
  rcases ByteRing.contents_push valid (host.filtered read).1 with ⟨pushed, wholePushed⟩
  have after : (host.readOnce read).carried =
      host.handed ++ ((host.ring.push (host.filtered read).1).2.contents ++
        (List.replicate (host.filtered read).2.atPlus.toNat plus ++
          host.incoming.drop (host.readSize read))) := by
    have handed := host.handed_readOnce read
    simp only [Ingest.readOnce] at handed
    simp only [carried, Ingest.readOnce, filtered_ring, handed, List.append_assoc]
  have before : host.carried = host.handed ++ (host.ring.contents ++
      (List.replicate host.atPlus.toNat plus ++ host.incoming.take (host.readSize read) ++
        host.incoming.drop (host.readSize read))) := by
    rw [List.append_assoc (List.replicate _ _), List.take_append_drop]
    simp only [carried, List.append_assoc]
  rw [after, before]
  constructor
  · refine (List.Sublist.refl _).append ((pushed.append (List.Sublist.refl _)).trans ?_)
    rw [List.append_assoc, ← List.append_assoc (host.filtered read).1]
    exact (List.Sublist.refl _).append (filtered.append (List.Sublist.refl _))
  · rintro ⟨passes, fits⟩
    rw [wholePushed fits, ← wholeFiltered passes]
    simp only [List.append_assoc]
    rfl

theorem carried_readLoop (valid : host.ring.ring.WellFormed) (reads : List BulkRead) :
    (host.readLoop reads).ring.ring.WellFormed ∧
      (host.readLoop reads).carried.Sublist host.carried ∧
      (host.ReadsWhole reads → (host.readLoop reads).carried = host.carried) := by
  induction reads generalizing host with
  | nil => exact ⟨valid, List.Sublist.refl _, fun _ => rfl⟩
  | cons read rest inductionHypothesis =>
      rw [Ingest.readLoop, ReadsWhole]
      split
      next may =>
        split
        · exact ⟨valid, List.Sublist.refl _, fun _ => rfl⟩
        next some =>
          rcases carried_readOnce valid read with ⟨first, wholeFirst⟩
          rcases inductionHypothesis (wellFormed_readOnce valid read) with
            ⟨valid', later, wholeLater⟩
          refine ⟨valid', later.trans first, fun whole => ?_⟩
          rcases whole may some with ⟨wholeRead, wholeRest⟩
          rw [wholeLater wholeRest, wholeFirst wholeRead]
      · exact ⟨valid, List.Sublist.refl _, fun _ => rfl⟩

theorem handed_readLoop (host : Ingest cap) (reads : List BulkRead) :
    (host.readLoop reads).handed = host.handed := by
  induction reads generalizing host with
  | nil => rfl
  | cons read rest inductionHypothesis =>
      rw [Ingest.readLoop]
      split
      · split
        · rfl
        · exact (inductionHypothesis (host.readOnce read)).trans (host.handed_readOnce read)
      · rfl

end Reading

/-- One round of the feeding: the link takes a prefix of the front of the ring. -/
def feedOnce (host : Ingest cap) (link : Link R) : Ingest cap :=
  { host with
    ring := host.ring.drop (link.write host.ring.peek).1
    hostIn := host.hostIn + UInt32.ofNat (link.write host.ring.peek).1
    handed := host.handed ++ host.ring.peek.take (link.write host.ring.peek).1 }

theorem feedLoop_succ (fuel : Nat) (host : Ingest cap) (link : Link R) :
    feedLoop (fuel + 1) host link =
      if 0 < host.ring.count then
        if (link.write host.ring.peek).1 < host.ring.peek.length then
          (host.feedOnce link, (link.write host.ring.peek).2)
        else feedLoop fuel (host.feedOnce link) (link.write host.ring.peek).2
      else (host, link) :=
  rfl

/-- The bytes that the link takes leave the ring, oldest first. -/
theorem contents_feedOnce {host : Ingest cap} (valid : host.ring.ring.WellFormed)
    (link : Link R) : (host.feedOnce link).ring.ring.WellFormed ∧
      host.ring.peek.take (link.write host.ring.peek).1 ++ (host.feedOnce link).ring.contents =
        host.ring.contents := by
  have taken := write_le link host.ring.peek
  have front : host.ring.peek = host.ring.contents.take host.ring.peek.length := valid.front_eq
  have inside : host.ring.peek.length ≤ host.ring.ring.count := by
    have lengths := congrArg List.length front
    have held : host.ring.contents.length = host.ring.ring.count := RingBuffer.length_contents _
    rw [List.length_take, held] at lengths
    omega
  have rest : (host.feedOnce link).ring.contents =
      host.ring.contents.drop (link.write host.ring.peek).1 :=
    valid.contents_drop (taken.trans inside)
  have first : host.ring.peek.take (link.write host.ring.peek).1 =
      host.ring.contents.take (link.write host.ring.peek).1 := by
    have begun := congrArg (List.take (link.write host.ring.peek).1) front
    rwa [List.take_take, Nat.min_eq_left taken] at begun
  rw [rest, first, List.take_append_drop]
  exact ⟨valid.drop _, rfl⟩

/-- Feeding is a sequence of writes to the link, of the oldest bytes in the ring. -/
theorem feedLoop_writes (heatshrink : Heatshrink) {host : Ingest cap}
    (valid : host.ring.ring.WellFormed) (fuel : Nat) (e : End R) :
    ∃ (writes : List Bytes) (taken : Bytes),
      (writes.map LinkLayer.Call.write).foldl (End.call heatshrink) e =
        { e with link := (feedLoop fuel host e.link).2, written := e.written ++ taken } ∧
      (feedLoop fuel host e.link).1.ring.ring.WellFormed ∧
      (feedLoop fuel host e.link).1 = { host with
        ring := (feedLoop fuel host e.link).1.ring
        hostIn := (feedLoop fuel host e.link).1.hostIn
        handed := host.handed ++ taken } ∧
      taken ++ (feedLoop fuel host e.link).1.ring.contents = host.ring.contents := by
  induction fuel generalizing host e with
  | zero => exact ⟨[], [], by simp [feedLoop], valid, by simp [feedLoop], rfl⟩
  | succ fuel inductionHypothesis =>
      rw [feedLoop_succ]
      split
      next nonempty =>
        rcases contents_feedOnce valid e.link with ⟨valid', moved⟩
        split
        · exact ⟨[host.ring.peek], _, rfl, valid', rfl, moved⟩
        · rcases inductionHypothesis valid' (e.call heatshrink (.write host.ring.peek)) with
            ⟨writes, later, called, valid'', frame, moved'⟩
          refine ⟨host.ring.peek :: writes,
            host.ring.peek.take (e.link.write host.ring.peek).1 ++ later, ?_, valid'', ?_, ?_⟩
          · rw [List.map_cons, List.foldl_cons, called, ← List.append_assoc]
            rfl
          · rw [← List.append_assoc]
            exact frame
          · rw [List.append_assoc]
            exact (congrArg _ moved').trans moved
      · exact ⟨[], [], by simp, valid, by simp, rfl⟩

theorem ingestToLink_writes (heatshrink : Heatshrink) {host : Ingest cap}
    (valid : host.ring.ring.WellFormed) (e : End R) :
    ∃ (writes : List Bytes) (taken : Bytes),
      (writes.map LinkLayer.Call.write).foldl (End.call heatshrink) e =
        { e with
          link := (host.ingestToLink e.link).2
          written := e.written ++ taken } ∧
      (host.ingestToLink e.link).1.ring.ring.WellFormed ∧
      (host.ingestToLink e.link).1.handed = host.handed ++ taken ∧
      (host.ingestToLink e.link).1.carried = host.carried := by
  rcases feedLoop_writes heatshrink valid (host.ring.count + 1) e with
    ⟨writes, taken, called, valid', frame, moved⟩
  refine ⟨writes, taken, called, valid', by rw [ingestToLink, frame], ?_⟩
  rw [ingestToLink, frame]
  simp only [carried, ← moved, List.append_assoc]

end Ingest

/-! ### What a board keeps -/

/-- The pump's reads are calls at the link's end. -/
theorem HostOutput.readAll_calls {R : Nat} (heatshrink : Heatshrink) (sizes : List Nat)
    (e : End R) : (sizes.map LinkLayer.Call.read).foldl (End.call heatshrink) e =
      { e with
        link := (readAll sizes e.link).2
        read := e.read ++ (readAll sizes e.link).1 } := by
  induction sizes generalizing e with
  | nil => simp [readAll]
  | cons size rest inductionHypothesis =>
      rw [List.map_cons, List.foldl_cons, inductionHypothesis]
      simp only [readAll, End.call, List.append_assoc]

theorem HostOutput.frame_hostTxDrain {host : HostOutput} (sound : host.Sound) (port : Port) :
    (host.hostTxDrain port).read = host.read ∧ (host.hostTxDrain port).pushed = host.pushed := by
  rw [hostTxDrain]
  split
  · rcases (drainLoop_spec sound (host.ring.count + 1) port.accepts port.available).2 with
      ⟨n, -, frame, -⟩
    rw [frame]
    exact ⟨rfl, rfl⟩
  · exact ⟨rfl, rfl⟩

namespace Station

variable {cap R : Nat} {station next : Station cap} {e after : End R}

/-- The records of the board and of its end agree; only the link's bytes went into the output
ring, and only what the host sent is under way. -/
structure Keeps (station : Station cap) (e : End R) : Prop where
  ring : station.ingest.ring.ring.WellFormed
  carried : station.ingest.carried.Sublist station.sent
  written : e.written = station.ingest.handed
  output : station.output.Sound
  fromLink : station.output.pushed.map Prod.snd = station.output.read
  read : e.read = station.output.read

/-- A pass of `Poll` is a sequence of writes to the link. -/
theorem Keeps.poll (keeps : station.Keeps e) (heatshrink : Heatshrink) {input : PollInput}
    (polled : station.poll e input = some (next, after)) :
    (∃ writes : List Bytes,
      after = (writes.map LinkLayer.Call.write).foldl (End.call heatshrink) e) ∧
    next.Keeps after ∧
    ((station.ingest.arrive input.arrived).ReadsWhole input.reads →
      station.ingest.carried = station.sent → next.ingest.carried = next.sent) ∧
    (input.port.connected = true → next.output.discarded = station.output.discarded) := by
  rw [Station.poll] at polled
  split at polled
  · cases polled
  split at polled
  · cases polled
  simp only [Option.some.injEq, Prod.mk.injEq] at polled
  rcases polled with ⟨rfl, rfl⟩
  have arrived : (station.ingest.arrive input.arrived).carried =
      station.ingest.carried ++ input.arrived := by
    simp only [Ingest.carried, Ingest.arrive, List.append_assoc]
  rcases @Ingest.carried_readLoop cap (station.ingest.arrive input.arrived) keeps.ring
    input.reads with ⟨valid, fewer, whole⟩
  have before := (station.ingest.arrive input.arrived).handed_readLoop input.reads
  generalize (station.ingest.arrive input.arrived).readLoop input.reads = read at *
  rcases Ingest.ingestToLink_writes heatshrink valid e with
    ⟨writes, taken, called, valid', handed, same⟩
  have fed : (read.ingestToLink e.link).1.handed.drop read.handed.length = taken := by
    rw [handed, List.drop_left]
  rcases HostOutput.frame_hostTxDrain keeps.output input.port with ⟨out, pushed⟩
  rw [fed]
  refine ⟨⟨writes, called.symm⟩, ?_, ?_, HostOutput.discarded_hostTxDrain keeps.output⟩
  · exact {
      ring := valid'
      carried := by
        rw [same]
        exact (arrived ▸ fewer).trans (keeps.carried.append (List.Sublist.refl _))
      written := by
        rw [handed, before]
        exact congrArg (· ++ taken) keeps.written
      output := keeps.output.hostTxDrain input.port
      fromLink := by
        rw [out, pushed]
        exact keeps.fromLink
      read := keeps.read.trans out.symm }
  · intro readsWhole before
    rw [same, whole readsWhole, arrived, before]

/-- A pass of the pump is a sequence of reads from the link. -/
theorem Keeps.pump (keeps : station.Keeps e) (heatshrink : Heatshrink) (port : Port) :
    (∃ sizes : List Nat, (station.pump e port).2 =
      (sizes.map LinkLayer.Call.read).foldl (End.call heatshrink) e) ∧
    (station.pump e port).1.Keeps (station.pump e port).2 ∧
    (port.connected = true →
      (station.pump e port).1.output.discarded = station.output.discarded) := by
  rcases HostOutput.pumpLoop_spec keeps.output (station.output.ring.free + 1) e.link with
    ⟨sound, sizes, -, frame, -⟩
  rcases HostOutput.frame_hostTxDrain sound port with ⟨out, pushed⟩
  have link : (station.output.pumpLinkOut e.link port).2 = (HostOutput.readAll sizes e.link).2 :=
    congrArg Prod.snd frame
  have read : (station.output.pumpLinkOut e.link port).1.read =
      station.output.read ++ (HostOutput.readAll sizes e.link).1 := by
    refine out.trans ?_
    rw [frame]
  have taken : (station.output.pumpLinkOut e.link port).1.read.drop station.output.read.length =
      (HostOutput.readAll sizes e.link).1 := by
    rw [read, List.drop_left]
  refine ⟨⟨sizes, ?_⟩, ?_, fun connected => ?_⟩
  · rw [HostOutput.readAll_calls, Station.pump, taken, link]
  · exact {
      ring := keeps.ring
      carried := keeps.carried
      written := keeps.written
      output := keeps.output.pumpLinkOut e.link port
      fromLink := by
        refine Eq.trans (congrArg _ pushed) (Eq.trans ?_ out.symm)
        rw [frame]
        simp only [List.map_append, keeps.fromLink, List.map_map, Function.comp_def, List.map_id']
      read := by
        rw [Station.pump, taken, keeps.read]
        exact read.symm }
  · refine (HostOutput.discarded_hostTxDrain sound connected).trans ?_
    rw [frame]

theorem Keeps.congr (keeps : station.Keeps e) (written : after.written = e.written)
    (read : after.read = e.read) : station.Keeps after :=
  { keeps with
    written := written.trans keeps.written
    read := read.trans keeps.read }

end Station

/-! ### What the pipe keeps -/

theorem run_calls_a {A B : Nat} (heatshrink : Heatshrink) (w : World A B)
    (calls : List LinkLayer.Call) :
    w.run heatshrink (calls.map (Action.call .a)) =
      { w with a := calls.foldl (End.call heatshrink) w.a } := by
  induction calls generalizing w with
  | nil => rfl
  | cons c rest inductionHypothesis => exact inductionHypothesis _

theorem run_calls_b {A B : Nat} (heatshrink : Heatshrink) (w : World A B)
    (calls : List LinkLayer.Call) :
    w.run heatshrink (calls.map (Action.call .b)) =
      { w with b := calls.foldl (End.call heatshrink) w.b } := by
  induction calls generalizing w with
  | nil => rfl
  | cons c rest inductionHypothesis => exact inductionHypothesis _

theorem Apart.step {A B : Nat} {action : Action} (apart : Apart action)
    (heatshrink : Heatshrink) (w : World A B) :
    ((w.step heatshrink action).a.written = w.a.written ∧
      (w.step heatshrink action).a.read = w.a.read) ∧
    (w.step heatshrink action).b.written = w.b.written ∧
      (w.step heatshrink action).b.read = w.b.read := by
  cases action with
  | call side c =>
      cases c with
      | write d => exact apart.elim
      | read max => exact apart.elim
      | setTiming | takeGotData | takePeerReset | takeValidRx | setCtrlTx | setAuxTx | beginTurn
      | nextTx | makePoll => cases side <;> exact ⟨⟨rfl, rfl⟩, rfl, rfl⟩
  | deliver sender =>
      cases sender with
      | a =>
          rw [World.step]
          split <;> exact ⟨⟨rfl, rfl⟩, rfl, rfl⟩
      | b =>
          rw [World.step]
          split <;> exact ⟨⟨rfl, rfl⟩, rfl, rfl⟩
  | lose sender position => cases sender <;> exact ⟨⟨rfl, rfl⟩, rfl, rfl⟩

/-! ### From the start -/

/-- A link that has neither sent nor heard. -/
structure Blank {R : Nat} (config : Config) (link : Link R) : Prop where
  valid : link.Valid
  cfg : link.cfg = Link.clampConfig config
  window : link.win = []
  base : link.baseSeq = 0
  next : link.rxNext = 0
  slots : ∀ slot, (link.rx slot).received = false
  queue : link.sRing.contents = []
  received : link.rRing.contents = []
  epoch : link.myEpoch ≠ 0
  unknown : link.peerEpoch = 0

theorem Started.blank {R : Nat} (positive : 0 < R) {config : Config} {link : Link R}
    (started : Started config link) : Blank config link := by
  induction started with
  | init memory =>
      exact {
        valid := Link.valid_init positive memory config
        cfg := rfl
        window := rfl
        base := rfl
        next := rfl
        slots := fun _ => rfl
        queue := RingBuffer.contents_clear memory.sRing
        received := RingBuffer.contents_clear memory.rRing
        epoch := by
          change (if (Link.clampConfig config).epoch ≠ 0 then _ else _) ≠ 0
          split
          next positive => exact positive
          next => decide
        unknown := rfl }
  | @newSession link _ inductionHypothesis =>
      exact {
        valid := inductionHypothesis.valid.newSession
        cfg := inductionHypothesis.cfg
        window := rfl
        base := rfl
        next := rfl
        slots := fun _ => rfl
        queue := RingBuffer.contents_clear link.sRing
        received := RingBuffer.contents_clear link.rRing
        epoch := by
          change Link.nextEpoch link.myEpoch ≠ 0
          rw [Link.nextEpoch]
          split
          · decide
          next positive => exact positive
        unknown := inductionHypothesis.unknown }

theorem Blank.half {R S : Nat} {heatshrink : Heatshrink} {config configPeer : Config}
    {link : Link S} {peer : Link R} (blank : Blank config link) (other : Blank configPeer peer)
    (key : configPeer.key = config.key)
    (tagLen : (Link.clampConfig configPeer).tagLen = (Link.clampConfig config).tagLen) :
    Half heatshrink link.rDropped (End.fresh link) (End.fresh peer) where
  flows := by
    refine ⟨_, Flow.start blank.valid other.valid ?_ ?_ blank.window blank.base rfl rfl
      ⟨other.next, other.slots, other.received⟩ fun _ member => absurd member List.not_mem_nil⟩
    · simp only [End.fresh, Link.sealSettings, blank.cfg, other.cfg]
      exact Prod.ext key tagLen
    · simp only [End.fresh, blank.cfg]
      exact Link.tagLen_clampConfig_le config
  accounts := blank.queue.symm
  epoch := blank.epoch
  known := Or.inl blank.unknown
  dropped := rfl

theorem Station.Begins.keeps {cap R : Nat} {station : Station cap} {e : End R} {config : Config}
    (begins : station.Begins e config) : station.Keeps e where
  ring := begins.ring
  carried := begins.sent ▸ List.Sublist.refl _
  written := by
    rw [begins.fresh, begins.handed]
    rfl
  output := by
    have nothing : station.output.ring.contents = [] :=
      List.length_eq_zero_iff.mp ((RingBuffer.length_contents _).trans begins.empty)
    refine ⟨begins.output, ⟨[], ?_, ?_, ?_⟩, ?_⟩
    · rw [nothing, begins.unpushed]
      rfl
    · rw [begins.unseen]
    · rw [begins.unseen, begins.undiscarded]
      rfl
    · rw [begins.unpushed, begins.unread]
      rfl
  fromLink := by
    rw [begins.unpushed, begins.unread]
    rfl
  read := by
    rw [begins.fresh, begins.unread]
    rfl

namespace Pipe

variable {capA capB A B : Nat} {heatshrink : Heatshrink} {droppedA droppedB : Nat}
  {pipe after : Pipe capA capB A B}

structure Keeps (heatshrink : Heatshrink) (droppedA droppedB : Nat)
    (pipe : Pipe capA capB A B) : Prop where
  a : pipe.a.Keeps pipe.world.a
  b : pipe.b.Keeps pipe.world.b
  linked : pipe.world.Linked heatshrink droppedA droppedB

/-- In both directions the records stay in agreement. -/
theorem Keeps.step (keeps : pipe.Keeps heatshrink droppedA droppedB)
    (inverts : heatshrink.Inverts) {action : PipeAction}
    (stepped : pipe.step heatshrink action = some after) :
    after.Keeps heatshrink droppedA droppedB := by
  cases action with
  | poll side input =>
      cases side with
      | a =>
          rcases Option.map_eq_some_iff.mp stepped with ⟨⟨next, e⟩, polled, rfl⟩
          rcases keeps.a.poll heatshrink polled with ⟨⟨writes, rfl⟩, kept, -⟩
          refine ⟨kept, keeps.b, ?_⟩
          have linked := keeps.linked.run inverts
            ((writes.map LinkLayer.Call.write).map (Action.call .a))
          rwa [run_calls_a] at linked
      | b =>
          rcases Option.map_eq_some_iff.mp stepped with ⟨⟨next, e⟩, polled, rfl⟩
          rcases keeps.b.poll heatshrink polled with ⟨⟨writes, rfl⟩, kept, -⟩
          refine ⟨keeps.a, kept, ?_⟩
          have linked := keeps.linked.run inverts
            ((writes.map LinkLayer.Call.write).map (Action.call .b))
          rwa [run_calls_b] at linked
  | pump side port =>
      cases side with
      | a =>
          rcases keeps.a.pump heatshrink port with ⟨⟨sizes, calls⟩, kept, -⟩
          cases stepped
          refine ⟨kept, keeps.b, ?_⟩
          have linked := keeps.linked.run inverts
            ((sizes.map LinkLayer.Call.read).map (Action.call .a))
          rwa [run_calls_a, ← calls] at linked
      | b =>
          rcases keeps.b.pump heatshrink port with ⟨⟨sizes, calls⟩, kept, -⟩
          cases stepped
          refine ⟨keeps.a, kept, ?_⟩
          have linked := keeps.linked.run inverts
            ((sizes.map LinkLayer.Call.read).map (Action.call .b))
          rwa [run_calls_b, ← calls] at linked
  | link action apart =>
      rcases apart.step heatshrink pipe.world with ⟨⟨writtenA, readA⟩, writtenB, readB⟩
      cases stepped
      exact ⟨keeps.a.congr writtenA readA, keeps.b.congr writtenB readB,
        keeps.linked.step inverts action⟩

theorem Keeps.run (keeps : pipe.Keeps heatshrink droppedA droppedB)
    (inverts : heatshrink.Inverts) {actions : List PipeAction}
    (ran : pipe.run heatshrink actions = some after) :
    after.Keeps heatshrink droppedA droppedB := by
  induction actions generalizing pipe with
  | nil =>
      cases ran
      exact keeps
  | cons action rest inductionHypothesis =>
      rcases Option.bind_eq_some_iff.mp ran with ⟨next, stepped, later⟩
      exact inductionHypothesis (keeps.step inverts stepped) later

/-! ### No byte is lost -/

/-- Nothing that this host has sent was thrown away. -/
def Lossless (pipe : Pipe capA capB A B) : Side → Prop
  | .a => pipe.a.ingest.carried = pipe.a.sent ∧ pipe.b.output.discarded = 0
  | .b => pipe.b.ingest.carried = pipe.b.sent ∧ pipe.a.output.discarded = 0

theorem Lossless.step {sender : Side} (lossless : pipe.Lossless sender)
    (keeps : pipe.Keeps heatshrink droppedA droppedB) {action : PipeAction}
    (spares : pipe.Spares sender action)
    (stepped : pipe.step heatshrink action = some after) : after.Lossless sender := by
  cases action with
  | poll side input =>
      cases side with
      | a =>
          rcases Option.map_eq_some_iff.mp stepped with ⟨⟨next, e⟩, polled, rfl⟩
          rcases keeps.a.poll heatshrink polled with ⟨-, -, carried, discarded⟩
          cases sender with
          | a => exact ⟨carried spares lossless.1, lossless.2⟩
          | b => exact ⟨lossless.1, (discarded spares).trans lossless.2⟩
      | b =>
          rcases Option.map_eq_some_iff.mp stepped with ⟨⟨next, e⟩, polled, rfl⟩
          rcases keeps.b.poll heatshrink polled with ⟨-, -, carried, discarded⟩
          cases sender with
          | a => exact ⟨lossless.1, (discarded spares).trans lossless.2⟩
          | b => exact ⟨carried spares lossless.1, lossless.2⟩
  | pump side port =>
      cases side with
      | a =>
          rcases keeps.a.pump heatshrink port with ⟨-, -, discarded⟩
          cases stepped
          cases sender with
          | a => exact lossless
          | b =>
              refine ⟨lossless.1, (discarded ?_).trans lossless.2⟩
              exact spares.resolve_left Side.noConfusion
      | b =>
          rcases keeps.b.pump heatshrink port with ⟨-, -, discarded⟩
          cases stepped
          cases sender with
          | a =>
              refine ⟨lossless.1, (discarded ?_).trans lossless.2⟩
              exact spares.resolve_left Side.noConfusion
          | b => exact lossless
  | link action apart =>
      cases stepped
      cases sender <;> exact lossless

theorem Lossless.run {sender : Side} (lossless : pipe.Lossless sender)
    (keeps : pipe.Keeps heatshrink droppedA droppedB) (inverts : heatshrink.Inverts)
    {actions : List PipeAction} (spares : pipe.SparesAll heatshrink sender actions)
    (ran : pipe.run heatshrink actions = some after) : after.Lossless sender := by
  induction actions generalizing pipe with
  | nil =>
      cases ran
      exact lossless
  | cons action rest inductionHypothesis =>
      rcases Option.bind_eq_some_iff.mp ran with ⟨next, stepped, later⟩
      have restSpares := spares.2
      rw [stepped] at restSpares
      exact inductionHypothesis (lossless.step keeps spares.1 stepped)
        (keeps.step inverts stepped) restSpares later

theorem Begins.keeps {configA configB : Config} (begins : pipe.Begins configA configB)
    (positiveA : 0 < A) (positiveB : 0 < B) :
    pipe.Keeps heatshrink pipe.world.a.link.rDropped pipe.world.b.link.rDropped := by
  have blankA := begins.a.started.blank positiveA
  have blankB := begins.b.started.blank positiveB
  refine ⟨begins.a.keeps, begins.b.keeps, ?_, ?_⟩
  · rw [begins.a.fresh, begins.b.fresh]
    exact blankA.half blankB begins.key begins.tagLen
  · rw [begins.a.fresh, begins.b.fresh]
    exact blankB.half blankA begins.key.symm begins.tagLen.symm

theorem Begins.lossless {configA configB : Config} (begins : pipe.Begins configA configB)
    (sender : Side) : pipe.Lossless sender := by
  cases sender with
  | a => exact ⟨begins.a.sent.symm, begins.b.undiscarded⟩
  | b => exact ⟨begins.b.sent.symm, begins.a.undiscarded⟩

end Pipe

/-! ### One direction -/

section Direction

variable {cap capPeer R S dropped : Nat} {heatshrink : Heatshrink} {station : Station cap}
  {other : Station capPeer} {e : End R} {peer : End S}

end Direction

/-! ### The pipe as a whole -/

namespace Pipe

variable {capA capB A B : Nat} {configA configB : Config} {pipe after : Pipe capA capB A B}

end Pipe

end LoraSerial.Host
