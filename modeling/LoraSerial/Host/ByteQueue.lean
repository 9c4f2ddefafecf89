import LoraSerial.Host.ByteRing
import LoraSerial.Library.Run
import Mathlib.Data.List.DropRight

/-!
Owns the meaning of the byte ring: a list of bytes under a retention policy, what each call
may do to it, and the refinement of every run of calls.
-/

namespace LoraSerial.Host

open Library Library.Run

/-! ### The list -/

/-- The stored bytes, oldest first. -/
structure ByteQueue where
  bytes : List UInt8
  keep : Nat
  policy : Policy

/-- A call, and what the caller does with a peeked run: drop `n` bytes of it. -/
inductive RingCall where
  | push (s : List UInt8)
  | read (n : Nat)
  | peekDrop (n : Nat)
  | setPolicy (policy : Policy) (keep : Nat)
deriving DecidableEq, Repr

/-- What a call returns. -/
inductive RingReply where
  | dropped (n : Nat)
  | bytes (out : List UInt8)
  | done
deriving DecidableEq, Repr

namespace ByteQueue

variable {cap : Nat}

/-- The longest prefix of `s` with which the queue holds at most `cap - 1` bytes. -/
structure Fits (cap : Nat) (queue : ByteQueue) (s kept : List UInt8) : Prop where
  isPrefix : kept <+: s
  room : (queue.bytes ++ kept).length ≤ cap - 1
  longest : ∀ other, other <+: s → (queue.bytes ++ other).length ≤ cap - 1 →
    other.length ≤ kept.length

/-- One call on a queue that may hold `cap - 1` bytes. How long a peeked run is stays open. -/
inductive Step (cap : Nat) : ByteQueue → RingCall → RingReply → ByteQueue → Prop
  | keepAll {queue : ByteQueue} {s kept : List UInt8} (policy : queue.policy = .keepAll)
      (fits : queue.Fits cap s kept) :
      Step cap queue (.push s) (.dropped (s.length - kept.length))
        { queue with bytes := queue.bytes ++ kept }
  | keepLatest {queue : ByteQueue} {s : List UInt8} (policy : queue.policy = .keepLatest)
      (nonempty : s ≠ []) :
      Step cap queue (.push s)
        (.dropped ((queue.bytes ++ s).length -
          ((queue.bytes ++ s).rtake (min queue.keep (cap - 1))).length))
        { queue with bytes := (queue.bytes ++ s).rtake (min queue.keep (cap - 1)) }
  | pushNothing {queue : ByteQueue} : Step cap queue (.push []) (.dropped 0) queue
  | read {queue : ByteQueue} {n : Nat} :
      Step cap queue (.read n) (.bytes (queue.bytes.take n))
        { queue with bytes := queue.bytes.drop n }
  | peekDrop {queue : ByteQueue} {run : List UInt8} {n : Nat} (oldest : run <+: queue.bytes)
      (shows : queue.bytes ≠ [] → run ≠ []) (within : n ≤ run.length) :
      Step cap queue (.peekDrop n) (.bytes run) { queue with bytes := queue.bytes.drop n }
  | setPolicy {queue : ByteQueue} {policy : Policy} {keep : Nat} :
      Step cap queue (.setPolicy policy keep) .done
        { queue with policy := policy, keep := keep }

/-- A row of calls with their replies. -/
inductive Runs (cap : Nat) : ByteQueue → List RingCall → List RingReply → ByteQueue → Prop
  | nil {queue : ByteQueue} : Runs cap queue [] [] queue
  | cons {first second last : ByteQueue} {call : RingCall} {reply : RingReply}
      {calls : List RingCall} {replies : List RingReply} (step : Step cap first call reply second)
      (rest : Runs cap second calls replies last) :
      Runs cap first (call :: calls) (reply :: replies) last

end ByteQueue

/-! ### The ring under the same calls -/

namespace ByteRing

variable {cap : Nat}

def queue (bytes : ByteRing cap) : ByteQueue where
  bytes := bytes.contents
  keep := bytes.keep
  policy := bytes.policy

def call (bytes : ByteRing cap) : RingCall → RingReply × ByteRing cap
  | .push s => (.dropped (bytes.push s).1, (bytes.push s).2)
  | .read n => (.bytes (bytes.read n).1, (bytes.read n).2)
  | .peekDrop n => (.bytes bytes.peek, bytes.drop n)
  | .setPolicy policy keep => (.done, bytes.setPolicy policy keep)

def after (bytes : ByteRing cap) (call : RingCall) : ByteRing cap :=
  (bytes.call call).2

/-- The replies of a row of calls. -/
def replies : ByteRing cap → List RingCall → List RingReply
  | _, [] => []
  | bytes, call :: calls => (bytes.call call).1 :: replies (bytes.after call) calls

/-- A caller drops at most the run it peeked. -/
def DropsPeeked (bytes : ByteRing cap) : RingCall → Prop
  | .peekDrop n => n ≤ bytes.peek.length
  | _ => True

instance (bytes : ByteRing cap) : (call : RingCall) → Decidable (bytes.DropsPeeked call)
  | .push _ => .isTrue trivial
  | .read _ => .isTrue trivial
  | .peekDrop n => inferInstanceAs (Decidable (n ≤ bytes.peek.length))
  | .setPolicy _ _ => .isTrue trivial

/-! ### One call -/

variable {bytes : ByteRing cap}

@[simp] theorem push_keep (bytes : ByteRing cap) (s : List UInt8) :
    (bytes.push s).2.keep = bytes.keep := by
  unfold push pushLatest
  dsimp only
  repeat' split
  all_goals rfl

@[simp] theorem push_policy (bytes : ByteRing cap) (s : List UInt8) :
    (bytes.push s).2.policy = bytes.policy := by
  unfold push pushLatest
  dsimp only
  repeat' split
  all_goals rfl

theorem wellFormed_write {ring : RingBuffer UInt8 cap} (valid : ring.WellFormed)
    (s : List UInt8) : (write ring s).WellFormed := by
  rw [write_eq valid]
  exact valid.pushAll s

theorem wellFormed_pushLatest (valid : bytes.ring.WellFormed) (s : List UInt8) :
    (bytes.pushLatest s).2.ring.WellFormed := by
  have cleared : ({ bytes.ring with tail := bytes.ring.head } : RingBuffer UInt8 cap).WellFormed :=
    ⟨valid.head_lt, valid.head_lt⟩
  unfold pushLatest
  generalize (if cap - 1 < bytes.keep then cap - 1 else bytes.keep) = limit
  dsimp only
  split
  next => exact wellFormed_write cleared _
  next =>
    split
    next => exact wellFormed_write (valid.drop _) _
    next => exact wellFormed_write valid _

theorem wellFormed_push (valid : bytes.ring.WellFormed) (s : List UInt8) :
    (bytes.push s).2.ring.WellFormed := by
  unfold push
  split
  next => exact valid
  next =>
    split
    next => exact wellFormed_pushLatest valid s
    next => exact wellFormed_write valid _

/-- What fits is the longest prefix that fits. -/
theorem fits_take (valid : bytes.ring.WellFormed) (s : List UInt8) :
    bytes.queue.Fits cap s (s.take bytes.free) := by
  have bound : cap ≠ 0 := Nat.ne_of_gt (Nat.zero_lt_of_lt valid.head_lt)
  have free : bytes.free = cap - 1 - bytes.contents.length := by
    rw [ByteRing.free, if_neg bound, contents, RingBuffer.length_contents]
    rfl
  have below := valid.count_lt
  have held : bytes.contents.length = bytes.ring.count := bytes.ring.length_contents
  refine ⟨List.take_prefix _ _, ?_, ?_⟩
  · change (bytes.contents ++ s.take bytes.free).length ≤ cap - 1
    rw [List.length_append, List.length_take]
    omega
  · intro other within room
    have short := within.length_le
    change (bytes.contents ++ other).length ≤ cap - 1 at room
    rw [List.length_append] at room
    rw [List.length_take]
    omega

theorem step_push (valid : bytes.ring.WellFormed) (s : List UInt8) :
    ByteQueue.Step cap bytes.queue (.push s) (.dropped (bytes.push s).1)
      (bytes.push s).2.queue := by
  have kept : (bytes.push s).2.queue = { bytes.queue with bytes := (bytes.push s).2.contents } := by
    simp [queue]
  cases policy : bytes.policy with
  | keepAll =>
      obtain ⟨dropped, -, -, contents⟩ := push_keepAll valid policy s
      have reply : s.length - (s.take bytes.free).length = s.length - bytes.free := by
        rw [List.length_take]
        omega
      rw [kept, dropped, contents, ← reply]
      exact .keepAll policy (fits_take valid s)
  | keepLatest =>
      by_cases nonempty : s = []
      · subst nonempty
        have nothing : bytes.push [] = (0, bytes) := if_pos (Or.inr rfl)
        rw [nothing]
        exact .pushNothing
      · obtain ⟨dropped, contents⟩ :=
          push_keepLatest valid policy (List.length_pos_iff.mpr nonempty)
        have held : bytes.contents.length = bytes.count := bytes.ring.length_contents
        have window : (bytes.contents ++ s).rtake (min bytes.keep (cap - 1)) =
            (bytes.push s).2.contents := by
          rw [contents, List.rtake, List.length_append, held]
        have evicted : (bytes.contents ++ s).length -
            (bytes.push s).2.contents.length =
              (bytes.push s).1 := by
          rw [contents, List.length_drop, dropped, List.length_append, held]
          omega
        have step : ByteQueue.Step cap bytes.queue (.push s) _ _ :=
          .keepLatest policy nonempty
        rw [kept, ← evicted, ← window]
        exact step

theorem readLoop_eq (fuel : Nat) (valid : bytes.ring.WellFormed) {n : Nat} (enough : n ≤ fuel) :
    (readLoop fuel bytes n).1 = bytes.contents.take n ∧
      (readLoop fuel bytes n).2.ring.WellFormed ∧
      (readLoop fuel bytes n).2.queue =
        { bytes.queue with bytes := bytes.contents.drop n } := by
  induction fuel generalizing bytes n with
  | zero =>
      obtain rfl : n = 0 := Nat.le_zero.mp enough
      exact ⟨rfl, valid, rfl⟩
  | succ fuel inductionHypothesis =>
      have held : bytes.contents.length = bytes.count := bytes.ring.length_contents
      rw [readLoop]
      split
      next more =>
        have shows : 0 < bytes.peek.length := valid.front_nonempty more.2
        have oldest : bytes.peek = bytes.contents.take bytes.peek.length := valid.front_eq
        have inside : bytes.peek.length ≤ bytes.count := by
          rw [oldest, List.length_take, held]
          exact Nat.min_le_right _ _
        generalize chunk : min n bytes.peek.length = c
        have left : (bytes.drop c).contents = bytes.contents.drop c :=
          valid.contents_drop (show c ≤ bytes.ring.count from
            Nat.le_trans (chunk ▸ Nat.min_le_right _ _) inside)
        obtain ⟨out, sound, rest⟩ :=
          inductionHypothesis (show (bytes.drop c).ring.WellFormed from valid.drop c)
            (show n - c ≤ fuel by omega)
        have first : bytes.peek.take c = bytes.contents.take c := by
          rw [oldest, List.take_take, Nat.min_eq_left (chunk ▸ Nat.min_le_right _ _)]
        refine ⟨?_, sound, ?_⟩
        · dsimp only
          rw [out, left, first, ← List.take_add, Nat.add_sub_cancel' (by omega)]
        · rw [rest, left, List.drop_drop, Nat.add_sub_cancel' (by omega)]
          rfl
      next stop =>
        have nothing : n = 0 ∨ bytes.contents.length = 0 := by omega
        rcases nothing with rfl | empty
        · exact ⟨rfl, valid, rfl⟩
        · have none := List.length_eq_zero_iff.mp empty
          refine ⟨?_, valid, ?_⟩
          · rw [none, List.take_nil]
          · rw [none, List.drop_nil, ← none]
            rfl

/-- One call refines the queue's. -/
theorem step_call (valid : bytes.ring.WellFormed) (call : RingCall)
    (within : bytes.DropsPeeked call) :
    (bytes.after call).ring.WellFormed ∧
      ByteQueue.Step cap bytes.queue call (bytes.call call).1 (bytes.after call).queue := by
  cases call with
  | push s => exact ⟨wellFormed_push valid s, step_push valid s⟩
  | read n =>
      obtain ⟨out, sound, left⟩ := readLoop_eq n valid (Nat.le_refl n)
      refine ⟨sound, ?_⟩
      change ByteQueue.Step cap bytes.queue (.read n) (.bytes (readLoop n bytes n).1)
        (readLoop n bytes n).2.queue
      rw [out, left]
      exact .read
  | peekDrop n =>
      have oldest : bytes.peek = bytes.contents.take bytes.peek.length := valid.front_eq
      have held : bytes.contents.length = bytes.count := bytes.ring.length_contents
      have short : n ≤ bytes.peek.length := within
      have inside : bytes.peek.length ≤ bytes.count := by
        rw [oldest, List.length_take, held]
        exact Nat.min_le_right _ _
      have left : (bytes.drop n).contents = bytes.contents.drop n :=
        valid.contents_drop (Nat.le_trans short inside)
      refine ⟨valid.drop n, ?_⟩
      have dropped : (bytes.after (.peekDrop n)).queue =
          { bytes.queue with bytes := bytes.contents.drop n } := by
        rw [← left]
        rfl
      rw [dropped]
      refine .peekDrop ?_ ?_ short
      · rw [oldest]
        exact List.take_prefix _ _
      · intro stored
        have nonempty : 0 < bytes.contents.length := List.length_pos_iff.mpr stored
        rw [held] at nonempty
        exact List.length_pos_iff.mp (valid.front_nonempty nonempty)
  | setPolicy policy keep => exact ⟨valid, .setPolicy⟩

/-! ### Every run -/

/-- From `Init` on, whatever the storage held and the policy was, every row of calls whose
drops stay within the peeked run returns what the queue's returns. -/
theorem refines_queue (positive : 0 < cap) (bytes : ByteRing cap) (buf : Nat → UInt8)
    (calls : List RingCall)
    (within : Along after DropsPeeked (bytes.init buf) calls) :
    ByteQueue.Runs cap { bytes := [], keep := bytes.keep, policy := bytes.policy } calls
      ((bytes.init buf).replies calls) (calls.foldl after (bytes.init buf)).queue := by
  have empty : (bytes.init buf).queue =
      { bytes := [], keep := bytes.keep, policy := bytes.policy } := by
    simp [queue, init, contents, RingBuffer.contents, RingBuffer.count]
  have valid : (bytes.init buf).ring.WellFormed := ⟨positive, positive⟩
  rw [← empty]
  clear empty
  generalize bytes.init buf = start at *
  induction calls generalizing start with
  | nil => exact .nil
  | cons call rest inductionHypothesis =>
      obtain ⟨here, later⟩ := within
      obtain ⟨sound, step⟩ := step_call valid call here
      exact .cons step (inductionHypothesis (start.after call) later sound)

/-- Before `Init`. -/
def unbound (cap : Nat) : ByteRing cap where
  ring := { cells := fun _ => 0, head := 0, tail := 0 }
  keep := 0
  policy := .keepAll

/-- Four cells: a push past the last one, then a window smaller than what is stored. -/
theorem refines_queue_wrapping :
    ByteQueue.Runs 4 { bytes := [], keep := 0, policy := .keepAll }
      [.push [1, 2, 3, 4], .read 2, .push [5, 6], .setPolicy .keepLatest 2, .push [7],
        .peekDrop 1]
      [.dropped 1, .bytes [1, 2], .dropped 0, .done, .dropped 2, .bytes [6, 7]]
      { bytes := [7], keep := 2, policy := .keepLatest } :=
  refines_queue (by decide) (unbound 4) (fun _ => 0) _ (by decide)

end ByteRing

end LoraSerial.Host
