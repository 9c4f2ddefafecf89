import LoraSerial.Library.RingBuffer
import LoraSerial.LinkLayer.Ascon
import Mathlib.Data.List.Forall2

/-!
Owns the frame ring between the radio task and the main loop: `Push` and `Pop` as threads
that interleave at every load, store and copied byte, and what they hand each other.
-/

namespace LoraSerial.LinkLayer

open Library

/-- A frame buffer and the number of its valid bytes. -/
structure Slot where
  buf : Nat → UInt8
  len : Nat

def Slot.frame (slot : Slot) : Bytes :=
  (List.range slot.len).map slot.buf

/-- Where a `Push` stands. -/
inductive Producer where
  | idle
  | called (data : Bytes)
  | loaded (data : Bytes) (h : Nat)
  | copying (data : Bytes) (h copied : Nat)
  | publishing (data : Bytes) (h : Nat)
deriving DecidableEq, Repr

/-- Where a `Pop` stands. -/
inductive Consumer where
  | idle
  | called (maxLen : Nat)
  | loaded (maxLen t : Nat)
  | sizing (maxLen t : Nat)
  | copying (maxLen t n : Nat) (out : Bytes)
deriving DecidableEq, Repr

/-- A `Push` that returned true, and the slot it filled. -/
structure Pushed where
  slot : Nat
  frame : Bytes
deriving DecidableEq, Repr

/-- A `Pop` that released a slot: its limit and the bytes it returned. -/
structure Popped where
  maxLen : Nat
  out : Bytes
deriving DecidableEq, Repr

/-- A pop returned as much of the frame as its limit allows. -/
def Popped.Returns (popped : Popped) (pushed : Pushed) : Prop :=
  popped.out = pushed.frame.take popped.maxLen

/-- The ring with both threads, and the calls that have returned. -/
structure FrameRing (SLOTS : Nat) where
  ring : RingBuffer Slot SLOTS
  producer : Producer
  consumer : Consumer
  pushed : List Pushed
  popped : List Popped

/-- The start of a call on an idle thread, or the next access of a thread. -/
inductive Access where
  | push (data : Bytes)
  | produce
  | pop (maxLen : Nat)
  | consume
deriving DecidableEq, Repr

namespace FrameRing

variable {SLOTS : Nat}

def inc (SLOTS i : Nat) : Nat :=
  (i + 1) % SLOTS

/-- The storage starts out with whatever it held. -/
def start (slots : Nat → Slot) : FrameRing SLOTS where
  ring := { cells := slots, head := 0, tail := 0 }
  producer := .idle
  consumer := .idle
  pushed := []
  popped := []

def store (ring : RingBuffer Slot SLOTS) (index : Nat) (slot : Slot) : RingBuffer Slot SLOTS :=
  { ring with cells := Function.update ring.cells index slot }

/-- An oversized frame is refused before the first load. -/
def push (FRAME_MAX : Nat) (s : FrameRing SLOTS) (data : Bytes) : FrameRing SLOTS :=
  match s.producer with
  | .idle => if FRAME_MAX < data.length then s else { s with producer := .called data }
  | _ => s

def produce (s : FrameRing SLOTS) : FrameRing SLOTS :=
  match s.producer with
  | .idle => s
  | .called data => { s with producer := .loaded data s.ring.head }
  | .loaded data h =>
      -- Full: `Push` returns false.
      if inc SLOTS h = s.ring.tail then { s with producer := .idle }
      else { s with producer := .copying data h 0 }
  | .copying data h copied =>
      let slot := s.ring.cells h
      if inside : copied < data.length then
        { s with
          ring := store s.ring h { slot with buf := Function.update slot.buf copied data[copied] }
          producer := .copying data h (copied + 1) }
      else
        { s with
          ring := store s.ring h { slot with len := data.length }
          producer := .publishing data h }
  | .publishing data h =>
      { s with
        ring := { s.ring with head := inc SLOTS h }
        producer := .idle
        pushed := s.pushed ++ [{ slot := h, frame := data }] }

def pop (s : FrameRing SLOTS) (maxLen : Nat) : FrameRing SLOTS :=
  match s.consumer with
  | .idle => { s with consumer := .called maxLen }
  | _ => s

def consume (s : FrameRing SLOTS) : FrameRing SLOTS :=
  match s.consumer with
  | .idle => s
  | .called maxLen => { s with consumer := .loaded maxLen s.ring.tail }
  | .loaded maxLen t =>
      -- Empty: `Pop` returns 0.
      if t = s.ring.head then { s with consumer := .idle }
      else { s with consumer := .sizing maxLen t }
  | .sizing maxLen t =>
      let len := (s.ring.cells t).len
      { s with consumer := .copying maxLen t (if maxLen < len then maxLen else len) [] }
  | .copying maxLen t n out =>
      if out.length < n then
        { s with consumer := .copying maxLen t n (out ++ [(s.ring.cells t).buf out.length]) }
      else
        { s with
          ring := { s.ring with tail := inc SLOTS t }
          consumer := .idle
          popped := s.popped ++ [{ maxLen := maxLen, out := out }] }

def step (FRAME_MAX : Nat) (s : FrameRing SLOTS) : Access → FrameRing SLOTS
  | .push data => s.push FRAME_MAX data
  | .produce => s.produce
  | .pop maxLen => s.pop maxLen
  | .consume => s.consume

/-! ### What the threads hand each other -/

/-- The slot the producer is writing. -/
def writes (s : FrameRing SLOTS) : Option Nat :=
  match s.producer with
  | .copying _ h _ => some h
  | _ => none

/-- The slot the consumer is reading. -/
def reads (s : FrameRing SLOTS) : Option Nat :=
  match s.consumer with
  | .sizing _ t => some t
  | .copying _ t _ _ => some t
  | _ => none

/-- The pushed frames whose slot is not released. -/
def unread (s : FrameRing SLOTS) : List Pushed :=
  s.pushed.drop s.popped.length

/-- The next access is the load after which `Push` returns false. -/
def ReportsFull (s : FrameRing SLOTS) : Prop :=
  ∃ data h, s.producer = .loaded data h ∧ inc SLOTS h = s.ring.tail

/-- A queue of one producer and one consumer. -/
structure Correct (s : FrameRing SLOTS) : Prop where
  order : List.Forall₂ Popped.Returns s.popped (s.pushed.take s.popped.length)
  exclusive : ∀ slot ∈ s.writes, s.reads ≠ some slot ∧ ∀ frame ∈ s.unread, frame.slot ≠ slot
  full : s.ReportsFull → s.unread.length = SLOTS - 1

/-! ### The invariant -/

/-- The ring of the frames, each with the index of its slot. -/
def frames (ring : RingBuffer Slot SLOTS) : RingBuffer Pushed SLOTS where
  cells := fun index => { slot := index, frame := (ring.cells index).frame }
  head := ring.head
  tail := ring.tail

end FrameRing

open FrameRing

variable {SLOTS : Nat}

/-- The producer fills the slot at the head, which is free. -/
def Producer.Sound (ring : RingBuffer Slot SLOTS) : Producer → Prop
  | .idle => True
  | .called _ => True
  | .loaded _ h => h = ring.head
  | .copying data h copied => h = ring.head ∧ 0 < ring.free ∧ copied ≤ data.length ∧
      (List.range copied).map (ring.cells h).buf = data.take copied
  | .publishing data h => h = ring.head ∧ 0 < ring.free ∧ (ring.cells h).frame = data

/-- The consumer copies the slot at the tail, which holds a frame. -/
def Consumer.Sound (ring : RingBuffer Slot SLOTS) : Consumer → Prop
  | .idle => True
  | .called _ => True
  | .loaded _ t => t = ring.tail
  | .sizing _ t => t = ring.tail ∧ 0 < ring.count
  | .copying maxLen t n out => t = ring.tail ∧ 0 < ring.count ∧
      n = min maxLen (ring.cells t).len ∧ out.length ≤ n ∧
      out = (List.range out.length).map (ring.cells t).buf

namespace FrameRing

structure Sound (s : FrameRing SLOTS) : Prop where
  valid : s.ring.WellFormed
  held : s.unread = (frames s.ring).contents
  order : List.Forall₂ Popped.Returns s.popped (s.pushed.take s.popped.length)
  producer : s.producer.Sound s.ring
  consumer : s.consumer.Sound s.ring

theorem sound_start (positive : 0 < SLOTS) (slots : Nat → Slot) :
    (start slots : FrameRing SLOTS).Sound where
  valid := ⟨positive, positive⟩
  held := by simp [start, unread, frames, RingBuffer.contents, RingBuffer.count]
  order := .nil
  producer := trivial
  consumer := trivial

variable {s : FrameRing SLOTS}

theorem Sound.length_popped (sound : s.Sound) : s.popped.length ≤ s.pushed.length := by
  have matched := sound.order.length_eq
  rw [List.length_take] at matched
  omega

theorem Sound.framesValid (sound : s.Sound) : (frames s.ring).WellFormed :=
  ⟨sound.valid.head_lt, sound.valid.tail_lt⟩

/-! ### The producer -/

/-- A write into the slot at the head leaves the frames and the consumer alone. -/
theorem Sound.write (sound : s.Sound) {slot : Slot} {producer : Producer}
    (writes : producer.Sound (store s.ring s.ring.head slot)) :
    ({ s with ring := store s.ring s.ring.head slot, producer := producer } :
      FrameRing SLOTS).Sound := by
  have elsewhere : ∀ index, index ≠ s.ring.head →
      (store s.ring s.ring.head slot).cells index = s.ring.cells index :=
    fun index other => Function.update_of_ne other _ _
  have tailStays : 0 < s.ring.count →
      (store s.ring s.ring.head slot).cells s.ring.tail = s.ring.cells s.ring.tail := by
    intro stored
    have apart := sound.valid.ne_head stored
    rw [Nat.add_zero, Nat.mod_eq_of_lt sound.valid.tail_lt] at apart
    exact elsewhere _ apart
  refine ⟨⟨sound.valid.head_lt, sound.valid.tail_lt⟩, ?_, sound.order, writes, ?_⟩
  · refine sound.held.trans (sound.framesValid.contents_congr fun index other => ?_).symm
    change Pushed.mk index ((store s.ring s.ring.head slot).cells index).frame = _
    rw [elsewhere index other]
    rfl
  · have reading := sound.consumer
    cases consumer : s.consumer with
    | idle | called => trivial
    | loaded maxLen t | sizing maxLen t =>
        rw [consumer] at reading
        exact reading
    | copying maxLen t n out =>
        rw [consumer] at reading
        obtain ⟨rfl, stored, size, short, copied⟩ := reading
        have same := tailStays stored
        refine ⟨rfl, stored, ?_, short, ?_⟩
        · exact size.trans (congrArg (fun cell => min maxLen cell.len) same.symm)
        · exact copied.trans
            (congrArg (fun cell : Slot => (List.range out.length).map cell.buf) same.symm)

theorem Sound.publish (sound : s.Sound) {data : Bytes}
    (filled : 0 < s.ring.free ∧ (s.ring.cells s.ring.head).frame = data) :
    ({ s with
      ring := { s.ring with head := inc SLOTS s.ring.head }
      producer := .idle
      pushed := s.pushed ++ [{ slot := s.ring.head, frame := data }] } : FrameRing SLOTS).Sound := by
  obtain ⟨room, rfl⟩ := filled
  have published : ({ s.ring with head := inc SLOTS s.ring.head } : RingBuffer Slot SLOTS) =
      s.ring.push (s.ring.cells s.ring.head) := s.ring.push_cells_head.symm
  have appended := sound.framesValid.contents_push room ((frames s.ring).cells s.ring.head)
  have more : 0 < s.ring.count →
      0 < ({ s.ring with head := inc SLOTS s.ring.head } : RingBuffer Slot SLOTS).count := by
    intro stored
    rw [published, sound.valid.count_push room]
    omega
  refine ⟨⟨Nat.mod_lt _ (Nat.zero_lt_of_lt sound.valid.head_lt), sound.valid.tail_lt⟩, ?_, ?_,
    trivial, ?_⟩
  · change (s.pushed ++ [_]).drop s.popped.length = (frames { s.ring with head := _ }).contents
    rw [List.drop_append_of_le_length sound.length_popped]
    change s.unread ++ _ = _
    rw [sound.held]
    exact appended.symm.trans (congrArg RingBuffer.contents (frames s.ring).push_cells_head)
  · rw [List.take_append_of_le_length sound.length_popped]
    exact sound.order
  · have reading := sound.consumer
    cases consumer : s.consumer with
    | idle | called => trivial
    | loaded maxLen t =>
        rw [consumer] at reading
        exact reading
    | sizing maxLen t =>
        rw [consumer] at reading
        exact ⟨reading.1, more reading.2⟩
    | copying maxLen t n out =>
        rw [consumer] at reading
        exact ⟨reading.1, more reading.2.1, reading.2.2⟩

theorem Sound.produce (sound : s.Sound) : s.produce.Sound := by
  have standing := sound.producer
  unfold FrameRing.produce
  cases producer : s.producer with
  | idle => exact sound
  | called data => exact { sound with producer := rfl }
  | loaded data h =>
      rw [producer] at standing
      obtain rfl : h = s.ring.head := standing
      dsimp only
      split
      next full => exact { sound with producer := trivial }
      next room =>
        have free : 0 < s.ring.free := sound.valid.free_pos_iff.mpr room
        exact { sound with producer := ⟨rfl, free, Nat.zero_le _, rfl⟩ }
  | copying data h copied =>
      rw [producer] at standing
      obtain ⟨rfl, free, short, same⟩ := standing
      dsimp only
      split
      next inside =>
        refine sound.write ⟨rfl, free, inside, ?_⟩
        have before : (List.range copied).map
            (Function.update (s.ring.cells s.ring.head).buf copied data[copied]) =
              data.take copied := by
          rw [← same]
          apply List.map_congr_left
          intro index member
          exact Function.update_of_ne (Nat.ne_of_lt (List.mem_range.mp member)) _ _
        simp only [store, Function.update_self]
        rw [List.range_succ, List.map_append, before, List.map_singleton, Function.update_self,
          List.take_append_getElem]
      next complete =>
        have all : copied = data.length := by omega
        refine sound.write ⟨rfl, free, ?_⟩
        rw [all, List.take_length] at same
        simp only [store, Function.update_self]
        exact same
  | publishing data h =>
      rw [producer] at standing
      obtain ⟨rfl, filled⟩ := standing
      exact sound.publish filled

/-! ### The consumer -/

theorem Sound.release (sound : s.Sound) {maxLen : Nat} {out : Bytes}
    (stored : 0 < s.ring.count)
    (returns : out = ((s.ring.cells s.ring.tail).frame).take maxLen) :
    ({ s with
      ring := { s.ring with tail := inc SLOTS s.ring.tail }
      consumer := .idle
      popped := s.popped ++ [{ maxLen := maxLen, out := out }] } : FrameRing SLOTS).Sound := by
  have oldest := sound.framesValid.contents_pop stored
  have fewer := sound.valid.count_pop stored
  have bounded := sound.valid.count_lt
  have first : s.pushed.drop s.popped.length =
      { slot := s.ring.tail, frame := (s.ring.cells s.ring.tail).frame } ::
        (frames s.ring).pop.2.contents := sound.held.trans oldest
  have present : s.popped.length < s.pushed.length := by
    have some := congrArg List.length first
    rw [List.length_drop, List.length_cons] at some
    omega
  have next := List.drop_eq_getElem_cons present
  rw [first] at next
  obtain ⟨head, rest⟩ := List.cons.inj next
  refine ⟨⟨sound.valid.head_lt, Nat.mod_lt _ (Nat.zero_lt_of_lt sound.valid.tail_lt)⟩, ?_, ?_, ?_,
    trivial⟩
  · change s.pushed.drop (s.popped ++ [_]).length = (frames s.ring).pop.2.contents
    rw [List.length_append, List.length_singleton, rest]
  · change List.Forall₂ Popped.Returns (s.popped ++ [_]) (s.pushed.take (s.popped ++ [_]).length)
    rw [List.length_append, List.length_singleton, List.take_succ_eq_append_getElem present,
      ← head]
    exact List.rel_append sound.order (.cons returns .nil)
  · have freed : s.ring.pop.2.free = s.ring.free + 1 := by
      unfold RingBuffer.free
      omega
    have standing := sound.producer
    cases producer : s.producer with
    | idle | called => trivial
    | loaded data h =>
        rw [producer] at standing
        exact standing
    | copying data h copied =>
        rw [producer] at standing
        exact ⟨standing.1, show 0 < s.ring.pop.2.free by omega, standing.2.2⟩
    | publishing data h =>
        rw [producer] at standing
        exact ⟨standing.1, show 0 < s.ring.pop.2.free by omega, standing.2.2⟩

theorem Sound.consume (sound : s.Sound) : s.consume.Sound := by
  have reading := sound.consumer
  unfold FrameRing.consume
  cases consumer : s.consumer with
  | idle => exact sound
  | called maxLen => exact { sound with consumer := rfl }
  | loaded maxLen t =>
      rw [consumer] at reading
      obtain rfl : t = s.ring.tail := reading
      dsimp only
      split
      next empty => exact { sound with consumer := trivial }
      next apart =>
        have stored : 0 < s.ring.count := by
          have tailBelow := sound.valid.tail_lt
          rcases sound.valid.count_cases with ⟨ordered, occupancy⟩ | ⟨ordered, occupancy⟩ <;> omega
        exact { sound with consumer := ⟨rfl, stored⟩ }
  | sizing maxLen t =>
      rw [consumer] at reading
      obtain ⟨rfl, stored⟩ := reading
      refine { sound with consumer := ⟨rfl, stored, ?_, Nat.zero_le _, rfl⟩ }
      dsimp only
      split <;> omega
  | copying maxLen t n out =>
      rw [consumer] at reading
      obtain ⟨rfl, stored, size, short, copied⟩ := reading
      dsimp only
      split
      next more =>
        refine { sound with consumer := ⟨rfl, stored, size, ?_, ?_⟩ }
        · rw [List.length_append, List.length_singleton]
          exact more
        · rw [List.length_append, List.length_singleton, List.range_succ, List.map_append,
            ← copied, List.map_singleton]
      next complete =>
        refine sound.release stored ?_
        have all : out.length = min maxLen (s.ring.cells s.ring.tail).len := by omega
        rw [copied, all, Slot.frame, ← List.map_take, List.take_range]

/-! ### Every interleaving -/

theorem Sound.step (FRAME_MAX : Nat) (sound : s.Sound) (access : Access) :
    (s.step FRAME_MAX access).Sound := by
  cases access with
  | push data =>
      change (s.push FRAME_MAX data).Sound
      unfold FrameRing.push
      split
      next =>
        split
        next => exact sound
        next => exact { sound with producer := trivial }
      next => exact sound
  | produce => exact sound.produce
  | pop maxLen =>
      change (s.pop maxLen).Sound
      unfold FrameRing.pop
      split
      next => exact { sound with consumer := trivial }
      next => exact sound
  | consume => exact sound.consume

theorem Sound.run (FRAME_MAX : Nat) (sound : s.Sound) (accesses : List Access) :
    (accesses.foldl (FrameRing.step FRAME_MAX) s).Sound := by
  induction accesses generalizing s with
  | nil => exact sound
  | cons access rest inductionHypothesis => exact inductionHypothesis (sound.step FRAME_MAX access)

/-- An unread frame is in a stored cell. -/
theorem Sound.slot_ne_head (sound : s.Sound) {frame : Pushed} (member : frame ∈ s.unread) :
    frame.slot ≠ s.ring.head := by
  rw [sound.held] at member
  obtain ⟨offset, inside, rfl⟩ := List.mem_map.mp member
  exact sound.valid.ne_head (List.mem_range.mp inside)

theorem Sound.head_of_writes (sound : s.Sound) {slot : Nat} (writing : slot ∈ s.writes) :
    slot = s.ring.head := by
  have standing := sound.producer
  unfold writes at writing
  cases producer : s.producer with
  | copying data h copied =>
      rw [producer] at writing standing
      exact (Option.some.inj writing).symm.trans standing.1
  | _ =>
      rw [producer] at writing
      cases writing

/-- The consumer reads the slot of a frame that is not released. -/
theorem Sound.tail_of_reads (sound : s.Sound) {slot : Nat} (reading : slot ∈ s.reads) :
    slot = s.ring.tail ∧ 0 < s.ring.count := by
  have standing := sound.consumer
  unfold reads at reading
  cases consumer : s.consumer with
  | sizing maxLen t | copying maxLen t n out =>
      rw [consumer] at reading standing
      rw [← Option.some.inj reading]
      exact ⟨standing.1, by simp only [Consumer.Sound] at standing; omega⟩
  | _ =>
      rw [consumer] at reading
      cases reading

theorem Sound.full (sound : s.Sound) (reports : s.ReportsFull) :
    s.unread.length = SLOTS - 1 := by
  obtain ⟨data, h, loaded, collides⟩ := reports
  have standing := sound.producer
  rw [loaded] at standing
  obtain rfl : h = s.ring.head := standing
  have none : ¬0 < s.ring.free := fun free => sound.valid.free_pos_iff.mp free collides
  have bounded := sound.valid.count_lt
  have count : s.unread.length = s.ring.count := by
    rw [sound.held, RingBuffer.length_contents]
    rfl
  unfold RingBuffer.free at none
  omega

theorem Sound.correct (sound : s.Sound) : s.Correct where
  order := sound.order
  exclusive := by
    intro slot writing
    obtain rfl := sound.head_of_writes writing
    refine ⟨fun reading => ?_, fun frame member => sound.slot_ne_head member⟩
    obtain ⟨same, stored⟩ := sound.tail_of_reads reading
    have apart := sound.valid.ne_head stored
    rw [Nat.add_zero, Nat.mod_eq_of_lt sound.valid.tail_lt] at apart
    exact apart same.symm
  full := sound.full

/-- One producer and one consumer, however their accesses interleave: what the pops
returned are the pushed frames in order, no slot is written while it is read or holds an
unread frame, and a push that reports full found `SLOTS - 1` frames unread. -/
theorem correct_run (FRAME_MAX : Nat) (two : 2 ≤ SLOTS) (slots : Nat → Slot)
    (accesses : List Access) :
    (accesses.foldl (FrameRing.step FRAME_MAX) (start slots : FrameRing SLOTS)).Correct :=
  ((sound_start (by omega) slots).run FRAME_MAX accesses).correct

/-- A frame is pushed into a ring of two slots while the consumer looks. -/
theorem correct_run_overlapping :
    ([Access.push [1, 2], .pop 1, .produce, .consume, .produce, .consume].foldl
      (FrameRing.step 255) (start fun _ => ⟨fun _ => 0, 0⟩ : FrameRing 2)).Correct :=
  correct_run 255 (by decide) _ _

end FrameRing

end LoraSerial.LinkLayer
