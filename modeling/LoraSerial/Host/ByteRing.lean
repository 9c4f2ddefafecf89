import LoraSerial.Library.RingBuffer

/-!
Owns the byte ring with its retention policy: push under either policy, the chunked
write, and the zero-copy read. Storage is bound: `cap` is its size.
-/

namespace LoraSerial.Host

open Library

inductive Policy where
  | keepAll
  | keepLatest
deriving DecidableEq, Repr

structure ByteRing (cap : Nat) where
  ring : RingBuffer UInt8 cap
  keep : Nat
  policy : Policy

namespace ByteRing

variable {cap : Nat}

/-- Bind storage of `cap` bytes. The policy and the window are not touched. -/
def init (bytes : ByteRing cap) (buf : Nat → UInt8) : ByteRing cap :=
  { bytes with ring := { cells := buf, head := 0, tail := 0 } }

def setPolicy (bytes : ByteRing cap) (policy : Policy) (keep : Nat) : ByteRing cap :=
  { bytes with policy := policy, keep := keep }

def count (bytes : ByteRing cap) : Nat :=
  bytes.ring.count

/-- 0 when no storage is bound. -/
def free (bytes : ByteRing cap) : Nat :=
  if cap = 0 then 0 else bytes.ring.free

def contents (bytes : ByteRing cap) : List UInt8 :=
  bytes.ring.contents

/-- Copy up to the last cell, then go on at cell zero. -/
def writeLoop : Nat → RingBuffer UInt8 cap → List UInt8 → RingBuffer UInt8 cap
  | 0, ring, _ => ring
  | fuel + 1, ring, s =>
      if 0 < s.length then
        let c := min s.length (cap - ring.head)
        writeLoop fuel (ring.copyIn (s.take c)) (s.drop c)
      else ring

/-- Each round copies at least one byte, so `s.length` rounds are enough. -/
def write (ring : RingBuffer UInt8 cap) (s : List UInt8) : RingBuffer UInt8 cap :=
  writeLoop s.length ring s

/-- Evict the oldest bytes so that at most `keep` are left. Returns the number of bytes
dropped. -/
def pushLatest (bytes : ByteRing cap) (s : List UInt8) : Nat × ByteRing cap :=
  let limit := if cap - 1 < bytes.keep then cap - 1 else bytes.keep
  if limit ≤ s.length then
    (bytes.count + (s.length - limit),
      { bytes with
        ring := write { bytes.ring with tail := bytes.ring.head } (s.drop (s.length - limit)) })
  else
    let need := bytes.count + s.length
    if limit < need then
      (need - limit, { bytes with ring := write (bytes.ring.drop (need - limit)) s })
    else (0, { bytes with ring := write bytes.ring s })

/-- Returns the number of bytes dropped. -/
def push (bytes : ByteRing cap) (s : List UInt8) : Nat × ByteRing cap :=
  if cap = 0 ∨ s.length = 0 then (0, bytes)
  else
    match bytes.policy with
    | .keepLatest => bytes.pushLatest s
    | .keepAll =>
        let dropped := if bytes.free < s.length then s.length - bytes.free else 0
        (dropped, { bytes with ring := write bytes.ring (s.take (s.length - dropped)) })

/-- The contiguous readable run at the tail. -/
def peek (bytes : ByteRing cap) : List UInt8 :=
  bytes.ring.front

def drop (bytes : ByteRing cap) (n : Nat) : ByteRing cap :=
  { bytes with ring := bytes.ring.drop n }

/-- One run after the other, until `n` bytes are out or none is left. -/
def readLoop : Nat → ByteRing cap → Nat → List UInt8 × ByteRing cap
  | 0, bytes, _ => ([], bytes)
  | fuel + 1, bytes, n =>
      if 0 < n ∧ 0 < bytes.count then
        let c := min n bytes.peek.length
        let rest := readLoop fuel (bytes.drop c) (n - c)
        (bytes.peek.take c ++ rest.1, rest.2)
      else ([], bytes)

/-- Each round copies at least one byte, so `n` rounds are enough. -/
def read (bytes : ByteRing cap) (n : Nat) : List UInt8 × ByteRing cap :=
  readLoop n bytes n

/-! ### Laws -/

/-- The chunked write is one push after the other. -/
theorem write_eq {ring : RingBuffer UInt8 cap} (valid : ring.WellFormed) (s : List UInt8) :
    write ring s = ring.pushAll s := by
  suffices looped : ∀ fuel (ring : RingBuffer UInt8 cap) (s : List UInt8), ring.WellFormed →
      s.length ≤ fuel → writeLoop fuel ring s = ring.pushAll s from
    looped s.length ring s valid (Nat.le_refl _)
  intro fuel
  induction fuel with
  | zero =>
      intro ring s _ short
      rw [List.length_eq_zero_iff.mp (Nat.le_zero.mp short)]
      rfl
  | succ fuel inductionHypothesis =>
      intro ring s valid short
      have headBelow := valid.head_lt
      rw [writeLoop]
      split
      next nonempty =>
        have inside : ring.head + (s.take (min s.length (cap - ring.head))).length ≤ cap := by
          rw [List.length_take]
          omega
        dsimp only
        rw [valid.copyIn_eq inside,
          inductionHypothesis _ _ (valid.pushAll _) (by rw [List.length_drop]; omega),
          RingBuffer.pushAll, RingBuffer.pushAll, RingBuffer.pushAll, ← List.foldl_append,
          List.take_append_drop]
      next empty =>
        rw [List.length_eq_zero_iff.mp (Nat.eq_zero_of_not_pos empty)]
        rfl

/-- The ring keeps everything: what fits is appended, the rest is dropped and counted. -/
theorem push_keepAll {bytes : ByteRing cap} (valid : bytes.ring.WellFormed)
    (keepAll : bytes.policy = .keepAll) (s : List UInt8) :
    (bytes.push s).1 = s.length - bytes.free ∧
      (bytes.push s).2.ring.WellFormed ∧ (bytes.push s).2.policy = .keepAll ∧
      (bytes.push s).2.contents = bytes.contents ++ s.take bytes.free := by
  have bound : cap ≠ 0 := Nat.ne_of_gt (Nat.zero_lt_of_lt valid.head_lt)
  have free : bytes.free = bytes.ring.free := if_neg bound
  unfold push
  split
  next nothing =>
    have empty := List.length_eq_zero_iff.mp (nothing.resolve_left bound)
    rw [empty]
    exact ⟨by simp, valid, keepAll, by simp⟩
  next =>
    simp only [keepAll]
    have dropped : (if bytes.free < s.length then s.length - bytes.free else 0) =
        s.length - bytes.free := by
      split <;> omega
    have kept : s.take (s.length - (s.length - bytes.free)) = s.take bytes.free := by
      by_cases fits : s.length ≤ bytes.free
      · rw [List.take_of_length_le fits, List.take_of_length_le (by omega)]
      · congr 1
        omega
    rw [dropped, kept, write_eq valid]
    refine ⟨rfl, valid.pushAll _, trivial, ?_⟩
    exact valid.contents_pushAll (by rw [← free, List.length_take]; omega)

/-- The ring keeps the freshest bytes: the last `keep` of what it held and was given, or
as many as it can hold. -/
theorem push_keepLatest {bytes : ByteRing cap} (valid : bytes.ring.WellFormed)
    (keepLatest : bytes.policy = .keepLatest) {s : List UInt8} (nonempty : 0 < s.length) :
    (bytes.push s).1 = bytes.count + s.length - min bytes.keep (cap - 1) ∧
      (bytes.push s).2.contents = (bytes.contents ++ s).drop
        (bytes.count + s.length - min bytes.keep (cap - 1)) := by
  have bound : cap ≠ 0 := Nat.ne_of_gt (Nat.zero_lt_of_lt valid.head_lt)
  have limited : (if cap - 1 < bytes.keep then cap - 1 else bytes.keep) =
      min bytes.keep (cap - 1) := by
    split <;> omega
  have held := bytes.ring.length_contents
  have below := valid.count_lt
  rw [push, if_neg (by omega), keepLatest]
  simp only [pushLatest, limited, contents, count]
  split
  next whole =>
    -- The push alone fills the window: everything held is evicted.
    have cleared : ({ bytes.ring with tail := bytes.ring.head } : RingBuffer UInt8 cap).WellFormed :=
      ⟨valid.head_lt, valid.head_lt⟩
    have none : ({ bytes.ring with tail := bytes.ring.head } : RingBuffer UInt8 cap).count = 0 := by
      simp [RingBuffer.count]
    refine ⟨by omega, ?_⟩
    rw [write_eq cleared, cleared.contents_pushAll (by
        rw [RingBuffer.free, none, List.length_drop]
        omega),
      List.length_eq_zero_iff.mp ((RingBuffer.length_contents _).trans none), List.nil_append,
      List.drop_append, List.drop_of_length_le (show bytes.ring.contents.length ≤
        bytes.ring.count + s.length - min bytes.keep (cap - 1) by omega), List.nil_append, held]
    congr 1
    omega
  next partly =>
    split
    next evicts =>
      have dropped := valid.contents_drop
        (show bytes.ring.count + s.length - min bytes.keep (cap - 1) ≤ bytes.ring.count by omega)
      have left := congrArg List.length dropped
      rw [RingBuffer.length_contents, List.length_drop, held] at left
      refine ⟨rfl, ?_⟩
      rw [write_eq (valid.drop _), (valid.drop _).contents_pushAll (by
          rw [RingBuffer.free, left]
          omega),
        dropped, List.drop_append_of_le_length (by omega)]
    next =>
      refine ⟨by omega, ?_⟩
      rw [write_eq valid, valid.contents_pushAll (by rw [RingBuffer.free]; omega),
        show bytes.ring.count + s.length - min bytes.keep (cap - 1) = 0 by omega, List.drop_zero]

end ByteRing

end LoraSerial.Host
