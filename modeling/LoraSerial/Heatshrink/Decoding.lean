import LoraSerial.Heatshrink.Decoder
import Mathlib.Data.Nat.Bitwise

/-!
Owns what the heatshrink decoder means: over any sequence of `sink` and `poll` calls, with any
chunks and any output buffers, its output is a prefix of what the taken bytes decode to, and
the whole of it once a poll returns POLL_EMPTY or `finish` returns FINISH_DONE. A poll always
returns.
-/

namespace LoraSerial.Heatshrink

open Library.BitStream Library.Lzss

namespace HeatshrinkDecoder

/-! ## The bit reader -/

/-- Input bytes that were not pulled yet. -/
def unread (hsd : HeatshrinkDecoder) : List UInt8 :=
  (hsd.buffers.take hsd.inputSize).drop hsd.inputIndex

/-- The bits ahead: what is left of the current byte, then the unread input. -/
structure Ahead (hsd : HeatshrinkDecoder) (ahead : List Bool) : Prop where
  length : hsd.buffers.length = 2 ^ windowBits + inputBufferSize
  size_le : hsd.inputSize ≤ inputBufferSize
  index : hsd.inputIndex < hsd.inputSize ∨ hsd.inputIndex = 0 ∧ hsd.inputSize = 0
  stream : ∃ left, left ≤ 7 ∧ hsd.bitIndex = 2 ^ left / 2 ∧
    ahead = field left hsd.currentByte.toNat ++ bits hsd.unread

/-- Only the bit reader has moved. -/
structure OnlyRead (before after : HeatshrinkDecoder) : Prop where
  buffers : after.buffers = before.buffers
  headIndex : after.headIndex = before.headIndex
  outputCount : after.outputCount = before.outputCount
  outputIndex : after.outputIndex = before.outputIndex
  state : after.state = before.state

theorem OnlyRead.refl (hsd : HeatshrinkDecoder) : OnlyRead hsd hsd :=
  ⟨rfl, rfl, rfl, rfl, rfl⟩

theorem OnlyRead.trans {first second third : HeatshrinkDecoder} (left : OnlyRead first second)
    (right : OnlyRead second third) : OnlyRead first third :=
  ⟨right.buffers.trans left.buffers, right.headIndex.trans left.headIndex,
    right.outputCount.trans left.outputCount, right.outputIndex.trans left.outputIndex,
    right.state.trans left.state⟩

namespace Ahead

variable {hsd : HeatshrinkDecoder} {ahead : List Bool}

/-- The bits ahead depend on the reader's fields alone. -/
theorem congr {other : HeatshrinkDecoder} (reader : Ahead hsd ahead)
    (buffers : other.buffers = hsd.buffers) (size : other.inputSize = hsd.inputSize)
    (index : other.inputIndex = hsd.inputIndex) (byte : other.currentByte = hsd.currentByte)
    (mask : other.bitIndex = hsd.bitIndex) : Ahead other ahead := by
  rcases reader with ⟨length, size_le, inRange, stream⟩
  refine ⟨?_, ?_, ?_, ?_⟩
  · rw [buffers, length]
  · rw [size]
    exact size_le
  · rw [index, size]
    exact inRange
  · rw [unread, buffers, size, index, byte, mask]
    exact stream

theorem inside (reader : Ahead hsd ahead) : hsd.inputSize ≤ hsd.buffers.length := by
  rw [reader.length]
  exact reader.size_le.trans (Nat.le_add_left _ _)

/-- With the input used up, fewer than eight bits are left. -/
theorem length_le (reader : Ahead hsd ahead) (used : hsd.inputSize = 0) : ahead.length ≤ 7 := by
  rcases reader.stream with ⟨left, short, -, rfl⟩
  simp [unread, used, short]

theorem length_ge (reader : Ahead hsd ahead) (waiting : hsd.inputSize ≠ 0) :
    8 ≤ ahead.length := by
  have index := reader.index
  have fits := reader.inside
  rcases reader.stream with ⟨left, -, -, rfl⟩
  simp only [unread, List.length_append, length_bits, List.length_drop, List.length_take]
  omega

theorem length_bounded (reader : Ahead hsd ahead) : ahead.length ≤ 8 * inputBufferSize + 7 := by
  have small := reader.size_le
  rcases reader.stream with ⟨left, short, -, rfl⟩
  simp only [unread, List.length_append, length_field, length_bits, List.length_drop,
    List.length_take]
  omega

/-- The first unread byte comes off the input. -/
private theorem pullByte (reader : Ahead hsd ahead) (waiting : hsd.inputSize ≠ 0) :
    hsd.unread = hsd.pullByte.currentByte :: hsd.pullByte.unread := by
  have index := reader.index
  have fits := reader.inside
  have inside : hsd.inputIndex < (hsd.buffers.take hsd.inputSize).length := by
    rw [List.length_take]
    omega
  have first : (hsd.buffers.take hsd.inputSize)[hsd.inputIndex] =
      hsd.buffers.getD hsd.inputIndex 0 := by
    rw [List.getElem_take, List.getD_eq_getElem]
  rw [unread, List.drop_eq_getElem_cons inside, first]
  by_cases last : hsd.inputIndex + 1 = hsd.inputSize
  · simp [HeatshrinkDecoder.pullByte, unread, last]
  · simp [HeatshrinkDecoder.pullByte, unread, last]

/-- One turn of the loop of `get_bits`. -/
private theorem next {bit : Bool} (reader : Ahead hsd (bit :: ahead)) :
    ¬(hsd.bitIndex = 0 ∧ hsd.inputSize = 0) ∧
      ∃ after, after = (if hsd.bitIndex = 0 then hsd.pullByte else hsd) ∧
        (after.currentByte.toNat &&& after.bitIndex ≠ 0 ↔ bit = true) ∧
        Ahead { after with bitIndex := after.bitIndex >>> 1 } ahead ∧
        OnlyRead hsd { after with bitIndex := after.bitIndex >>> 1 } := by
  rcases reader.stream with ⟨left, short, mask, stream⟩
  cases left with
  | zero =>
      have empty : hsd.bitIndex = 0 := mask
      have waiting : hsd.inputSize ≠ 0 := by
        intro used
        have index := reader.index
        simp [unread, used, field] at stream
      have index := reader.index
      have small := reader.size_le
      refine ⟨fun both => waiting both.2, hsd.pullByte, by rw [if_pos empty], ?_, ?_,
        ⟨rfl, rfl, rfl, rfl, rfl⟩⟩
      · rw [reader.pullByte waiting, bits_cons, byteBits, field] at stream
        simp only [field, List.nil_append, List.cons_append, List.cons.injEq] at stream
        rw [stream.1]
        exact and_two_pow_ne_zero _ 7
      · rw [reader.pullByte waiting, bits_cons, byteBits, field] at stream
        rw [field, List.nil_append, List.cons_append, List.cons.injEq] at stream
        refine ⟨reader.length, ?_, ?_, 7, Nat.le_refl 7, rfl, stream.2⟩
        · simp only [HeatshrinkDecoder.pullByte]
          split <;> omega
        · simp only [HeatshrinkDecoder.pullByte]
          split <;> omega
  | succ left =>
      have power : hsd.bitIndex = 2 ^ left := by
        rw [mask, Nat.pow_succ, Nat.mul_div_cancel _ (by decide)]
      have positive : hsd.bitIndex ≠ 0 := by
        rw [power]
        exact Nat.two_pow_pos left |>.ne'
      rw [field, List.cons_append, List.cons.injEq] at stream
      refine ⟨fun both => positive both.1, hsd, by rw [if_neg positive], ?_, ?_,
        ⟨rfl, rfl, rfl, rfl, rfl⟩⟩
      · rw [power, stream.1]
        exact and_two_pow_ne_zero _ left
      · refine ⟨reader.length, reader.size_le, reader.index, left, by omega, ?_, stream.2⟩
        rw [power, Nat.shiftRight_one]

/-- The loop reads `count` bits when there are as many. -/
private theorem getBitsLoop {count : Nat} (reader : Ahead hsd ahead)
    (enough : count ≤ ahead.length) (accumulator : Nat) :
    ∃ after, HeatshrinkDecoder.getBitsLoop count hsd accumulator =
        (after, some ((ahead.take count).foldl (fun sum bit => 2 * sum + bit.toNat)
          accumulator)) ∧
      Ahead after (ahead.drop count) ∧ OnlyRead hsd after := by
  induction count generalizing hsd ahead accumulator with
  | zero => exact ⟨hsd, rfl, reader, OnlyRead.refl hsd⟩
  | succ count inductionHypothesis =>
      cases ahead with
      | nil => simp at enough
      | cons bit ahead =>
          rcases reader.next with ⟨more, middle, pulled, tested, moved, same⟩
          have shifted : accumulator <<< 1 |||
              (if middle.currentByte.toNat &&& middle.bitIndex ≠ 0 then 1 else 0) =
                2 * accumulator + bit.toNat := by
            rw [← Nat.shiftLeft_add_eq_or_of_lt (by split <;> decide), Nat.shiftLeft_eq]
            cases bit <;> simp_all [Nat.mul_comm]
          rcases inductionHypothesis moved (Nat.le_of_succ_le_succ enough)
            (2 * accumulator + bit.toNat) with ⟨after, read, reader', same'⟩
          refine ⟨after, ?_, reader', same.trans same'⟩
          rw [HeatshrinkDecoder.getBitsLoop, if_neg more, ← pulled]
          simp only [shifted]
          exact read

/-- Too few bits: nothing is read. -/
theorem getBits_starved {count : Nat} (reader : Ahead hsd ahead) (short : ahead.length < count)
    (small : count ≤ 8) : hsd.getBits count = (hsd, none) ∧ hsd.inputSize = 0 := by
  have used : hsd.inputSize = 0 := by
    by_contra waiting
    have := reader.length_ge waiting
    omega
  refine ⟨?_, used⟩
  rcases reader.stream with ⟨left, -, mask, rfl⟩
  have below : hsd.bitIndex < 1 <<< (count - 1) := by
    rw [List.length_append, length_field] at short
    rw [mask, Nat.shiftLeft_eq, Nat.one_mul]
    cases left with
    | zero => exact Nat.two_pow_pos _
    | succ left =>
        rw [Nat.pow_succ, Nat.mul_div_cancel _ (by decide)]
        exact Nat.pow_lt_pow_right (by decide) (by omega)
  rw [getBits, if_neg (by omega), if_pos ⟨used, below⟩]

/-- Enough bits: the number they spell, and the bits after them. -/
theorem getBits_read {count : Nat} (reader : Ahead hsd ahead) (enough : count ≤ ahead.length)
    (positive : 0 < count) (small : count ≤ 8) :
    ∃ after, hsd.getBits count = (after, some (value (ahead.take count))) ∧
      Ahead after (ahead.drop count) ∧ OnlyRead hsd after := by
  have available : ¬(hsd.inputSize = 0 ∧ hsd.bitIndex < 1 <<< (count - 1)) := by
    rintro ⟨used, below⟩
    rcases reader.stream with ⟨left, -, mask, rfl⟩
    have long : count ≤ left := by simpa [unread, used] using enough
    rw [mask, Nat.shiftLeft_eq, Nat.one_mul] at below
    have power : 2 ^ (count - 1) ≤ 2 ^ left / 2 := by
      rw [Nat.le_div_iff_mul_le (by decide), ← Nat.pow_succ]
      exact Nat.pow_le_pow_right (by decide) (by omega)
    omega
  rcases reader.getBitsLoop enough 0 with ⟨after, read, rest⟩
  refine ⟨after, ?_, rest⟩
  rw [getBits, if_neg (by omega), if_neg available]
  exact read

end Ahead

/-! ## The expansion window -/

/-- The window holds the last bytes of the history. -/
def Shows (hsd : HeatshrinkDecoder) (history : List UInt8) : Prop :=
  ∀ distance : Nat, 1 ≤ distance → distance ≤ 2 ^ windowBits →
    hsd.buffers.getD (windowCell (hsd.headIndex - distance)) 0 = history.getD (distance - 1) 0

theorem windowCell_lt (index : Int) : windowCell index < 2 ^ windowBits + inputBufferSize := by
  simp only [windowCell, windowBits, inputBufferSize]
  omega

/-- The new byte replaces the oldest one. -/
theorem Shows.pushWindow {hsd : HeatshrinkDecoder} {history : List UInt8}
    (shows : Shows hsd history) (length : hsd.buffers.length = 2 ^ windowBits + inputBufferSize)
    (c : UInt8) : Shows (hsd.pushWindow c) (c :: history) := by
  intro distance positive near
  have inside := windowCell_lt hsd.headIndex
  rw [← length] at inside
  obtain ⟨back, rfl⟩ : ∃ back, distance = back + 1 := ⟨distance - 1, by omega⟩
  simp only [windowBits] at near
  have cell : windowCell ((hsd.pushWindow c).headIndex - (back + 1 : Nat)) =
      windowCell (hsd.headIndex - back) := by
    simp only [windowCell, HeatshrinkDecoder.pushWindow, windowBits]
    omega
  rw [cell]
  cases back with
  | zero => simp [HeatshrinkDecoder.pushWindow, List.getD_eq_getElem?_getD, inside]
  | succ back =>
      have other : windowCell hsd.headIndex ≠ windowCell (hsd.headIndex - (back + 1 : Nat)) := by
        simp only [windowCell, windowBits]
        omega
      have older := shows (back + 1) (by omega) (by simp only [windowBits]; omega)
      simp only [HeatshrinkDecoder.pushWindow, List.getD_eq_getElem?_getD,
        List.getElem?_set_ne other] at older ⊢
      simpa using older

theorem Ahead.pushWindow {hsd : HeatshrinkDecoder} {ahead : List Bool}
    (reader : Ahead hsd ahead) (c : UInt8) : Ahead (hsd.pushWindow c) ahead := by
  have small := reader.size_le
  have kept : (hsd.pushWindow c).unread = hsd.unread := by
    have outside : hsd.inputSize ≤ windowCell hsd.headIndex :=
      small.trans (Nat.le_add_right _ _)
    simp only [unread, HeatshrinkDecoder.pushWindow, List.take_set_of_le outside]
  refine ⟨?_, small, reader.index, ?_⟩
  · rw [HeatshrinkDecoder.pushWindow, List.length_set, reader.length]
  · rw [kept]
    exact reader.stream

/-! ## One turn of the state machine -/

/-- The place inside the current token. -/
def phase (hsd : HeatshrinkDecoder) : Phase :=
  match hsd.state with
  | .tagBit => .tag
  | .yieldLiteral => .literal
  | .backrefIndexMsb | .backrefIndexLsb => .index
  | .backrefCountMsb | .backrefCountLsb => .count hsd.outputIndex
  | .yieldBackref => .copy hsd.outputIndex hsd.outputCount

/-- What holds of the token fields in each state. The MSB states need fields wider than a
byte, which this configuration has not. -/
def InPlace (hsd : HeatshrinkDecoder) : Prop :=
  match hsd.state with
  | .tagBit | .yieldLiteral => True
  | .backrefIndexMsb | .backrefCountMsb => False
  | .backrefIndexLsb => hsd.outputIndex = 0
  | .backrefCountLsb =>
      hsd.outputCount = 0 ∧ 1 ≤ hsd.outputIndex ∧ hsd.outputIndex ≤ 2 ^ windowBits
  | .yieldBackref => 1 ≤ hsd.outputIndex ∧ hsd.outputIndex ≤ 2 ^ windowBits

/-- The decoder stands between the bits ahead and the history behind. -/
structure Represents (hsd : HeatshrinkDecoder) (ahead : List Bool) (history : List UInt8) :
    Prop where
  reader : Ahead hsd ahead
  window : Shows hsd history
  place : InPlace hsd

/-- The final history once the bits ahead and some future ones are used up. -/
def outcome (hsd : HeatshrinkDecoder) (ahead future : List Bool) (history : List UInt8) :
    List UInt8 :=
  resume windowBits lookaheadBits hsd.phase (ahead ++ future) history

theorem represents_reset : Represents reset [] [] := by
  refine ⟨⟨?_, Nat.zero_le _, Or.inr ⟨rfl, rfl⟩, 0, by decide, rfl, rfl⟩, ?_, trivial⟩
  · rw [reset, List.length_replicate]
  · intro distance _ _
    have inside := windowCell_lt (reset.headIndex - distance)
    simp only [reset] at inside ⊢
    rw [List.getD_replicate _ inside, List.getD_nil]

/-- The copy loop copies, into the output and into the window. -/
theorem copyLoop_spec {negOffset : Nat} (positive : 1 ≤ negOffset)
    (near : negOffset ≤ 2 ^ windowBits) (count : Nat) {hsd : HeatshrinkDecoder}
    {ahead : List Bool} {history : List UInt8} (reader : Ahead hsd ahead)
    (window : Shows hsd history) (out : List UInt8) :
    ∃ after copied, copyLoop negOffset count hsd out = (after, out ++ copied) ∧
      copied.length = count ∧ copied.reverse ++ history = copyBack negOffset count history ∧
      Ahead after ahead ∧ Shows after (copied.reverse ++ history) ∧
      after.state = hsd.state ∧ after.outputIndex = hsd.outputIndex ∧
      after.outputCount = hsd.outputCount ∧ after.inputSize = hsd.inputSize := by
  induction count generalizing hsd history out with
  | zero => exact ⟨hsd, [], by simp [copyLoop], rfl, rfl, reader, window, rfl, rfl, rfl, rfl⟩
  | succ count inductionHypothesis =>
      have byte := window negOffset positive near
      rcases inductionHypothesis (reader.pushWindow _)
        (window.pushWindow reader.length (history.getD (negOffset - 1) 0))
        (out ++ [history.getD (negOffset - 1) 0]) with
        ⟨after, copied, looped, length, meaning, reader', window', state, index, counted, size⟩
      refine ⟨after, history.getD (negOffset - 1) 0 :: copied, ?_, ?_, ?_, reader', ?_, state,
        index, counted, size⟩
      · rw [copyLoop, byte, looped, List.append_assoc]
        rfl
      · rw [List.length_cons, length]
      · rw [copyBack, ← meaning, List.reverse_cons, List.append_assoc]
        rfl
      · rw [List.reverse_cons, List.append_assoc]
        exact window'

/-- With the input used up, the decoder copies or waits for bits. -/
def Rests (hsd : HeatshrinkDecoder) (ahead : List Bool) : Prop :=
  hsd.inputSize = 0 →
    hsd.state = .yieldBackref ∨ Starved windowBits lookaheadBits hsd.phase ahead

/-- What the turns of the loop use up. -/
def rank (hsd : HeatshrinkDecoder) (ahead : List Bool) : Nat :=
  2 * ahead.length + if hsd.state = .yieldBackref then 1 else 0

/-- What a turn that adds `new` to the output leaves behind. -/
structure Turn (hsd : HeatshrinkDecoder) (ahead : List Bool) (history : List UInt8)
    (room : Nat) (after : HeatshrinkDecoder) (ahead' : List Bool) (new : List UInt8) :
    Prop where
  represents : Represents after ahead' (new.reverse ++ history)
  outcome_eq : ∀ future, hsd.outcome ahead future history =
    after.outcome ahead' future (new.reverse ++ history)
  fits : new.length ≤ room
  stops : after.state = hsd.state →
    Starved windowBits lookaheadBits after.phase ahead' ∧ after.inputSize = 0 ∨
      new.length = room ∧ after.Rests ahead'
  descends : after.state ≠ hsd.state → after.rank ahead' < hsd.rank ahead

/-- One turn of the loop is a turn in this sense. -/
def Turns (hsd : HeatshrinkDecoder) (ahead : List Bool) (history : List UInt8)
    (bufSize : Nat) (out : List UInt8) : Prop :=
  ∃ after state ahead' new, hsd.step bufSize out = (after, out ++ new, state) ∧
    Turn hsd ahead history (bufSize - out.length) { after with state := state } ahead' new

section Turns

variable {hsd : HeatshrinkDecoder} {ahead : List Bool} {history : List UInt8} {bufSize : Nat}
  {out : List UInt8}

/-- A reading state without its bits stays as it is. -/
private theorem Turn.starved (represents : Represents hsd ahead history)
    (starved : Starved windowBits lookaheadBits hsd.phase ahead) (used : hsd.inputSize = 0)
    (room : Nat) : Turn hsd ahead history room hsd ahead [] where
  represents := represents
  outcome_eq := fun _ => rfl
  fits := Nat.zero_le _
  stops := fun _ => Or.inl ⟨starved, used⟩
  descends := fun moved => absurd rfl moved

/-- So does a yielding state without room. -/
private theorem Turn.full (represents : Represents hsd ahead history)
    (rests : hsd.Rests ahead) : Turn hsd ahead history 0 hsd ahead [] where
  represents := represents
  outcome_eq := fun _ => rfl
  fits := Nat.le_refl _
  stops := fun _ => Or.inr ⟨rfl, rests⟩
  descends := fun moved => absurd rfl moved

/-- Reading bits leaves the window alone. -/
private theorem Shows.read {after : HeatshrinkDecoder} (window : Shows hsd history)
    (same : OnlyRead hsd after) : Shows after history := by
  rw [Shows, same.buffers, same.headIndex]
  exact window

theorem turns_tagBit (represents : Represents hsd ahead history)
    (state : hsd.state = .tagBit) : Turns hsd ahead history bufSize out := by
  have inTag : hsd.phase = .tag := by rw [phase, state]
  cases ahead with
  | nil =>
      rcases represents.reader.getBits_starved (show ([] : List Bool).length < 1 by decide)
        (by decide) with ⟨read, used⟩
      refine ⟨hsd, .tagBit, [], [], ?_, ?_⟩
      · simp [step, state, stTagBit, read]
      · rw [← state]
        exact Turn.starved represents (by rw [inTag]; rfl) used _
  | cons bit ahead =>
      rcases represents.reader.getBits_read (show 1 ≤ (bit :: ahead).length by simp)
        (by decide) (by decide) with ⟨after, read, reader, same⟩
      have window := represents.window.read same
      cases bit with
      | true =>
          refine ⟨after, .yieldLiteral, ahead, [], ?_, ?_⟩
          · simp [step, state, stTagBit, read, value]
          · refine ⟨⟨reader.congr rfl rfl rfl rfl rfl, window, trivial⟩, ?_, Nat.zero_le _, ?_, ?_⟩
            · intro future
              rw [outcome, inTag]
              exact resume_tag true (ahead ++ future) history
            · rw [state]
              intro stuck
              cases stuck
            · intro _
              simp [rank, state]
      | false =>
          refine ⟨{ after with outputIndex := 0 }, .backrefIndexLsb, ahead, [], ?_, ?_⟩
          · simp [step, state, stTagBit, read, value, windowBits]
          · refine ⟨⟨reader.congr rfl rfl rfl rfl rfl, window, rfl⟩, ?_, Nat.zero_le _, ?_, ?_⟩
            · intro future
              rw [outcome, inTag]
              exact resume_tag false (ahead ++ future) history
            · rw [state]
              intro stuck
              cases stuck
            · intro _
              simp [rank, state]

theorem turns_yieldLiteral (represents : Represents hsd ahead history)
    (state : hsd.state = .yieldLiteral) : Turns hsd ahead history bufSize out := by
  have inLiteral : hsd.phase = .literal := by rw [phase, state]
  by_cases room : out.length < bufSize
  · by_cases short : ahead.length < 8
    · rcases represents.reader.getBits_starved short (by decide) with ⟨read, used⟩
      refine ⟨hsd, .yieldLiteral, ahead, [], ?_, ?_⟩
      · simp [step, state, stYieldLiteral, room, read]
      · rw [← state]
        exact Turn.starved represents (by rw [inLiteral]; exact short) used _
    · rcases represents.reader.getBits_read (show 8 ≤ ahead.length by omega) (by decide)
        (by decide) with ⟨after, read, reader, same⟩
      have window := (represents.window.read same).pushWindow reader.length
        (UInt8.ofNat (value (ahead.take 8)))
      refine ⟨after.pushWindow (UInt8.ofNat (value (ahead.take 8))), .tagBit, ahead.drop 8,
        [UInt8.ofNat (value (ahead.take 8))], ?_, ?_⟩
      · simp [step, state, stYieldLiteral, room, read]
      · refine ⟨⟨(reader.pushWindow _).congr rfl rfl rfl rfl rfl, window, trivial⟩, ?_, ?_, ?_,
          ?_⟩
        · intro future
          rw [outcome, inLiteral, resume_literal (by rw [List.length_append]; omega),
            List.take_append_of_le_length (by omega), List.drop_append_of_le_length (by omega)]
          rfl
        · rw [List.length_singleton]
          omega
        · rw [state]
          intro stuck
          cases stuck
        · intro _
          simp only [rank, state, List.length_drop]
          simp
          omega
  · refine ⟨hsd, .yieldLiteral, ahead, [], ?_, ?_⟩
    · simp [step, state, stYieldLiteral, room]
    · rw [← state, show bufSize - out.length = 0 by omega]
      refine Turn.full represents fun used => Or.inr ?_
      rw [inLiteral]
      exact Nat.lt_succ_of_le (represents.reader.length_le used)

theorem turns_backrefIndexLsb (represents : Represents hsd ahead history)
    (state : hsd.state = .backrefIndexLsb) : Turns hsd ahead history bufSize out := by
  have inIndex : hsd.phase = .index := by rw [phase, state]
  have cleared : hsd.outputIndex = 0 := by
    have place := represents.place
    rwa [InPlace, state] at place
  by_cases short : ahead.length < windowBits
  · rcases represents.reader.getBits_starved short (by decide) with ⟨read, used⟩
    refine ⟨hsd, .backrefIndexLsb, ahead, [], ?_, ?_⟩
    · rw [windowBits] at read
      simp [step, state, stBackrefIndexLsb, windowBits, read]
    · rw [← state]
      exact Turn.starved represents (by rw [inIndex]; exact short) used _
  · rcases represents.reader.getBits_read (Nat.le_of_not_lt short) (by decide) (by decide) with
      ⟨after, read, reader, same⟩
    have window := represents.window.read same
    have below := value_lt (ahead.take windowBits)
    rw [List.length_take_of_le (Nat.le_of_not_lt short)] at below
    refine ⟨{ after with outputIndex := value (ahead.take windowBits) + 1, outputCount := 0 },
      .backrefCountLsb, ahead.drop windowBits, [], ?_, ?_⟩
    · have still : after.outputIndex = 0 := same.outputIndex.trans cleared
      rw [windowBits] at read
      simp [step, state, stBackrefIndexLsb, windowBits, lookaheadBits, read, still]
    · refine ⟨⟨reader.congr rfl rfl rfl rfl rfl, window, rfl, Nat.le_add_left 1 _,
        below⟩, ?_, Nat.zero_le _, ?_, ?_⟩
      · intro future
        rw [outcome, inIndex, resume_index (by rw [List.length_append]; omega),
          List.take_append_of_le_length (by omega), List.drop_append_of_le_length (by omega)]
        rfl
      · rw [state]
        intro stuck
        cases stuck
      · intro _
        simp only [rank, state, List.length_drop]
        simp only [windowBits] at short ⊢
        simp
        omega

theorem turns_backrefCountLsb (represents : Represents hsd ahead history)
    (state : hsd.state = .backrefCountLsb) : Turns hsd ahead history bufSize out := by
  have inCount : hsd.phase = .count hsd.outputIndex := by rw [phase, state]
  have place : hsd.outputCount = 0 ∧ 1 ≤ hsd.outputIndex ∧ hsd.outputIndex ≤ 2 ^ windowBits := by
    have place := represents.place
    rwa [InPlace, state] at place
  by_cases short : ahead.length < lookaheadBits
  · rcases represents.reader.getBits_starved short (by decide) with ⟨read, used⟩
    refine ⟨hsd, .backrefCountLsb, ahead, [], ?_, ?_⟩
    · rw [lookaheadBits] at read
      simp [step, state, stBackrefCountLsb, lookaheadBits, read]
    · rw [← state]
      exact Turn.starved represents (by rw [inCount]; exact short) used _
  · rcases represents.reader.getBits_read (Nat.le_of_not_lt short) (by decide) (by decide) with
      ⟨after, read, reader, same⟩
    have window := represents.window.read same
    refine ⟨{ after with outputCount := value (ahead.take lookaheadBits) + 1 },
      .yieldBackref, ahead.drop lookaheadBits, [], ?_, ?_⟩
    · have still : after.outputCount = 0 := same.outputCount.trans place.1
      rw [lookaheadBits] at read
      simp [step, state, stBackrefCountLsb, lookaheadBits, read, still]
    · refine ⟨⟨reader.congr rfl rfl rfl rfl rfl, window, ?_⟩, ?_, Nat.zero_le _, ?_, ?_⟩
      · show 1 ≤ after.outputIndex ∧ after.outputIndex ≤ 2 ^ windowBits
        rw [same.outputIndex]
        exact place.2
      · intro future
        rw [outcome, inCount, resume_count (by rw [List.length_append]; omega),
          List.take_append_of_le_length (by omega), List.drop_append_of_le_length (by omega),
          ← same.outputIndex]
        rfl
      · rw [state]
        intro stuck
        cases stuck
      · intro _
        simp only [rank, state, List.length_drop]
        simp only [lookaheadBits] at short ⊢
        simp
        omega

theorem turns_yieldBackref (represents : Represents hsd ahead history)
    (state : hsd.state = .yieldBackref) : Turns hsd ahead history bufSize out := by
  have inCopy : hsd.phase = .copy hsd.outputIndex hsd.outputCount := by rw [phase, state]
  have place : 1 ≤ hsd.outputIndex ∧ hsd.outputIndex ≤ 2 ^ windowBits := by
    have place := represents.place
    rwa [InPlace, state] at place
  by_cases room : 0 < bufSize - out.length
  · -- The copy is cut where the output buffer ends.
    obtain ⟨count, counted⟩ : ∃ count, count = if hsd.outputCount < bufSize - out.length then
      hsd.outputCount else bufSize - out.length := ⟨_, rfl⟩
    have within : count ≤ hsd.outputCount ∧ count ≤ bufSize - out.length := by
      rw [counted]
      split <;> omega
    rcases copyLoop_spec place.1 place.2 count represents.reader represents.window out with
      ⟨after, copied, looped, length, meaning, reader, window, sameState, sameIndex, sameCount,
        -⟩
    have stepped : hsd.step bufSize out = ({ after with outputCount := hsd.outputCount - count },
        out ++ copied,
        if hsd.outputCount - count = 0 then HsdState.tagBit else HsdState.yieldBackref) := by
      rw [step, state, stYieldBackref]
      simp only [if_pos room, ← counted, looped, sameCount]
    have rest : ∀ future, hsd.outcome ahead future history =
        resume windowBits lookaheadBits (.copy hsd.outputIndex (hsd.outputCount - count))
          (ahead ++ future) (copied.reverse ++ history) := by
      intro future
      rw [outcome, inCopy, meaning, ← resume_copy_add, Nat.add_sub_cancel' within.1]
    by_cases ended : hsd.outputCount - count = 0
    · refine ⟨_, _, ahead, copied, stepped, ?_⟩
      rw [if_pos ended]
      refine ⟨⟨reader.congr rfl rfl rfl rfl rfl, window, trivial⟩, ?_, by omega, ?_, ?_⟩
      · intro future
        rw [rest, ended]
        rfl
      · rw [state]
        intro stuck
        cases stuck
      · intro _
        simp [rank, state]
    · refine ⟨_, _, ahead, copied, stepped, ?_⟩
      rw [if_neg ended]
      refine ⟨⟨reader.congr rfl rfl rfl rfl rfl, window, ?_⟩, ?_, by omega, ?_, ?_⟩
      · show 1 ≤ after.outputIndex ∧ after.outputIndex ≤ 2 ^ windowBits
        rw [sameIndex]
        exact place
      · intro future
        rw [rest, outcome, phase, sameIndex]
      · refine fun _ => Or.inr ⟨?_, fun _ => Or.inl rfl⟩
        rw [length]
        by_cases inside : hsd.outputCount < bufSize - out.length
        · rw [if_pos inside] at counted
          omega
        · rw [if_neg inside] at counted
          exact counted
      · exact fun moved => absurd state.symm moved
  · refine ⟨hsd, .yieldBackref, ahead, [], ?_, ?_⟩
    · simp only [step, state, stYieldBackref, if_neg room, List.append_nil]
    · rw [← state, show bufSize - out.length = 0 by omega]
      exact Turn.full represents fun _ => Or.inl state

/-- Every turn, whatever the state. -/
theorem turns (represents : Represents hsd ahead history) :
    Turns hsd ahead history bufSize out := by
  have place := represents.place
  cases state : hsd.state with
  | tagBit => exact turns_tagBit represents state
  | yieldLiteral => exact turns_yieldLiteral represents state
  | backrefIndexMsb => simp [InPlace, state] at place
  | backrefIndexLsb => exact turns_backrefIndexLsb represents state
  | backrefCountMsb => simp [InPlace, state] at place
  | backrefCountLsb => exact turns_backrefCountLsb represents state
  | yieldBackref => exact turns_yieldBackref represents state

end Turns

/-! ## A poll -/

/-- What a poll that returned has done. -/
structure PollMeaning (hsd : HeatshrinkDecoder) (ahead : List Bool) (history : List UInt8)
    (room : Nat) (polled : Polled) (ahead' : List Bool) (new : List UInt8) : Prop where
  represents : Represents polled.hsd ahead' (new.reverse ++ history)
  outcome_eq : ∀ future, hsd.outcome ahead future history =
    polled.hsd.outcome ahead' future (new.reverse ++ history)
  fits : new.length ≤ room
  more_iff : polled.more = true ↔ new.length = room
  empty : polled.more = false →
    Starved windowBits lookaheadBits polled.hsd.phase ahead' ∧ polled.hsd.inputSize = 0
  rests : polled.hsd.Rests ahead'

theorem pollLoop_spec {bufSize fuel : Nat} {hsd : HeatshrinkDecoder} {ahead : List Bool}
    {history out : List UInt8} (represents : Represents hsd ahead history)
    (fits : out.length ≤ bufSize) (enough : hsd.rank ahead < fuel) :
    ∃ polled ahead' new, pollLoop bufSize fuel hsd out = some polled ∧
      polled.output = out ++ new ∧
      PollMeaning hsd ahead history (bufSize - out.length) polled ahead' new := by
  induction fuel generalizing hsd ahead history out with
  | zero => omega
  | succ fuel inductionHypothesis =>
      rcases turns represents with ⟨after, state, ahead', new, stepped, turn⟩
      rw [pollLoop, stepped]
      by_cases stuck : state = hsd.state
      · simp only [if_pos stuck]
        have length : (out ++ new).length = bufSize ↔ new.length = bufSize - out.length := by
          rw [List.length_append]
          omega
        refine ⟨_, ahead', new, rfl, rfl, turn.represents, turn.outcome_eq, turn.fits, ?_, ?_,
          ?_⟩
        · rw [decide_eq_true_iff]
          exact length
        · intro notFull
          rcases turn.stops stuck with starved | ⟨full, -⟩
          · exact starved
          · exact absurd (length.mpr full) (of_decide_eq_false notFull)
        · rcases turn.stops stuck with ⟨starved, -⟩ | ⟨-, rests⟩
          · exact fun _ => Or.inr starved
          · exact rests
      · simp only [if_neg stuck]
        have shorter := turn.descends stuck
        have room := turn.fits
        rcases inductionHypothesis turn.represents
          (show (out ++ new).length ≤ bufSize by rw [List.length_append]; omega) (by omega) with
          ⟨polled, ahead'', later, looped, output, meaning⟩
        refine ⟨polled, ahead'', new ++ later, looped, by rw [output, List.append_assoc], ?_⟩
        have split : (new ++ later).reverse ++ history =
            later.reverse ++ (new.reverse ++ history) := by
          rw [List.reverse_append, List.append_assoc]
        have left : bufSize - (out ++ new).length = bufSize - out.length - new.length := by
          rw [List.length_append]
          omega
        have bound := meaning.fits
        refine ⟨by rw [split]; exact meaning.represents, ?_, ?_, ?_, meaning.empty,
          meaning.rests⟩
        · intro future
          rw [turn.outcome_eq, meaning.outcome_eq, split]
        · rw [List.length_append]
          omega
        · rw [meaning.more_iff, left, List.length_append]
          omega

/-- A poll always returns. -/
theorem poll_spec {hsd : HeatshrinkDecoder} {ahead : List Bool} {history : List UInt8}
    (represents : Represents hsd ahead history) (room : Nat) :
    ∃ polled ahead', hsd.poll room = some polled ∧
      PollMeaning hsd ahead history room polled ahead' polled.output := by
  have bounded := represents.reader.length_bounded
  have enough : hsd.rank ahead < pollFuel := by
    simp only [rank, pollFuel]
    split <;> omega
  rcases pollLoop_spec represents (show ([] : List UInt8).length ≤ room from Nat.zero_le room)
    enough with
    ⟨polled, ahead', new, looped, output, meaning⟩
  rw [List.nil_append] at output
  subst output
  exact ⟨polled, ahead', looped, meaning⟩

/-! ## A sink -/

theorem length_sink_le (hsd : HeatshrinkDecoder) (input : List UInt8) :
    (hsd.sink input).2 ≤ input.length := by
  simp only [sink]
  split
  · exact Nat.zero_le _
  · show (if _ then _ else _) ≤ input.length
    split <;> omega

/-- The bytes taken come behind the bits ahead. -/
theorem sink_spec {hsd : HeatshrinkDecoder} {ahead : List Bool} {history : List UInt8}
    (represents : Represents hsd ahead history) (input : List UInt8) :
    Represents (hsd.sink input).1 (ahead ++ bits (input.take (hsd.sink input).2)) history ∧
      (hsd.sink input).1.phase = hsd.phase ∧ (hsd.sink input).1.state = hsd.state ∧
      (hsd.sink input).1.inputSize = hsd.inputSize + (hsd.sink input).2 := by
  by_cases full : inputBufferSize - hsd.inputSize = 0
  · have unmoved : hsd.sink input = (hsd, 0) := by rw [sink, if_pos full]
    rw [unmoved]
    refine ⟨?_, rfl, rfl, rfl⟩
    rw [List.take_zero, bits_nil, List.append_nil]
    exact represents
  · obtain ⟨size, sized⟩ : ∃ size, size = if inputBufferSize - hsd.inputSize < input.length then
      inputBufferSize - hsd.inputSize else input.length := ⟨_, rfl⟩
    have bounds : size ≤ inputBufferSize - hsd.inputSize ∧ size ≤ input.length := by
      rw [sized]
      split <;> omega
    have taken : (input.take size).length = size := List.length_take_of_le bounds.2
    have small := represents.reader.size_le
    have inside := represents.reader.inside
    have within : hsd.inputSize + (input.take size).length ≤ hsd.buffers.length := by
      rw [taken, represents.reader.length]
      exact le_trans (by omega) (Nat.le_add_left inputBufferSize _)
    have sunk : hsd.sink input =
        ({ hsd with
            buffers := write hsd.buffers hsd.inputSize (input.take size)
            inputSize := hsd.inputSize + size }, size) := by
      rw [sink, if_neg full, ← sized]
    rw [sunk]
    refine ⟨⟨⟨?_, ?_, ?_, ?_⟩, ?_, represents.place⟩, rfl, rfl, rfl⟩
    · rw [length_write within, represents.reader.length]
    · show hsd.inputSize + size ≤ inputBufferSize
      omega
    · show hsd.inputIndex < hsd.inputSize + size ∨
        hsd.inputIndex = 0 ∧ hsd.inputSize + size = 0
      have index := represents.reader.index
      omega
    · rcases represents.reader.stream with ⟨left, short, mask, stream⟩
      refine ⟨left, short, mask, ?_⟩
      have start : hsd.inputIndex ≤ (hsd.buffers.take hsd.inputSize).length := by
        rw [List.length_take_of_le inside]
        have index := represents.reader.index
        omega
      have extended : (write hsd.buffers hsd.inputSize (input.take size)).take
          (hsd.inputSize + size) = hsd.buffers.take hsd.inputSize ++ input.take size := by
        have written : (write hsd.buffers hsd.inputSize (input.take size)).take
            (hsd.inputSize + (input.take size).length) =
              hsd.buffers.take hsd.inputSize ++ input.take size := take_write inside
        rwa [taken] at written
      rw [stream, unread, unread, extended, List.drop_append_of_le_length start, bits_append,
        List.append_assoc]
    · intro distance positive near
      have cell : hsd.inputSize + (input.take size).length ≤
          windowCell (hsd.headIndex - distance) := by
        rw [taken, windowCell]
        omega
      exact (getD_write_of_ge cell inside).trans (represents.window distance positive near)

/-! ## Whole runs -/

inductive Call where
  | sink (input : List UInt8)
  | poll (room : Nat)

/-- A decoder in use: what it took, what it gave, and whether nothing happened since a poll
returned POLL_EMPTY. -/
structure Session where
  hsd : HeatshrinkDecoder
  taken : List UInt8
  output : List UInt8
  drained : Bool

def Session.start : Session where
  hsd := reset
  taken := []
  output := []
  drained := true

def Session.call (session : Session) : Call → Option Session
  | .sink input =>
      let sunk := session.hsd.sink input
      some { session with
        hsd := sunk.1, taken := session.taken ++ input.take sunk.2, drained := false }
  | .poll room => (session.hsd.poll room).map fun polled =>
      { session with
        hsd := polled.hsd, output := session.output ++ polled.output, drained := !polled.more }

def Session.run (session : Session) (calls : List Call) : Option Session :=
  calls.foldlM Session.call session

/-- The bytes a compressed text stands for. -/
def decodeBytes (bytes : List UInt8) : List UInt8 :=
  decode windowBits lookaheadBits (bits bytes)

/-- What was taken stands for the output and what the decoder still has to say. -/
structure Session.Faithful (session : Session) (ahead : List Bool) : Prop where
  represents : Represents session.hsd ahead session.output.reverse
  outcome_eq : ∀ future, resume windowBits lookaheadBits .tag (bits session.taken ++ future) [] =
    session.hsd.outcome ahead future session.output.reverse
  rests : session.hsd.Rests ahead
  drained : session.drained = true → Starved windowBits lookaheadBits session.hsd.phase ahead

theorem Session.start_faithful : start.Faithful [] where
  represents := represents_reset
  outcome_eq := fun _ => rfl
  rests := fun _ => Or.inr rfl
  drained := fun _ => rfl

/-- One call returns and keeps the session faithful. -/
theorem Session.call_faithful {session : Session} {ahead : List Bool}
    (faithful : session.Faithful ahead) (c : Call) :
    ∃ after ahead', session.call c = some after ∧ after.Faithful ahead' := by
  cases c with
  | sink input =>
      rcases sink_spec faithful.represents input with ⟨represents, samePhase, sameState, size⟩
      refine ⟨_, ahead ++ bits (input.take (session.hsd.sink input).2), rfl, represents, ?_, ?_,
        fun later => by cases later⟩
      · intro future
        rw [bits_append, List.append_assoc, faithful.outcome_eq, outcome, outcome, samePhase,
          List.append_assoc]
      · intro used
        have nothing : session.hsd.inputSize = 0 ∧ (session.hsd.sink input).2 = 0 := by
          have total : session.hsd.inputSize + (session.hsd.sink input).2 = 0 := by
            rw [← size]
            exact used
          omega
        rw [samePhase, sameState, nothing.2, List.take_zero, bits_nil, List.append_nil]
        exact faithful.rests nothing.1
  | poll room =>
      rcases poll_spec faithful.represents room with ⟨polled, ahead', returned, meaning⟩
      have split : (session.output ++ polled.output).reverse =
          polled.output.reverse ++ session.output.reverse := List.reverse_append
      refine ⟨_, ahead', by rw [call, returned]; rfl, ?_, ?_, meaning.rests, ?_⟩
      · rw [split]
        exact meaning.represents
      · intro future
        rw [split]
        exact (faithful.outcome_eq future).trans (meaning.outcome_eq future)
      · intro drained
        exact (meaning.empty (by simpa using drained)).1

theorem Session.run_faithful {session : Session} {ahead : List Bool}
    (faithful : session.Faithful ahead) (calls : List Call) :
    ∃ after ahead', session.run calls = some after ∧ after.Faithful ahead' := by
  induction calls generalizing session ahead with
  | nil => exact ⟨session, ahead, rfl, faithful⟩
  | cons c rest inductionHypothesis =>
      rcases call_faithful faithful c with ⟨middle, ahead', called, faithful'⟩
      rcases inductionHypothesis faithful' with ⟨after, ahead'', ran, faithful''⟩
      refine ⟨after, ahead'', ?_, faithful''⟩
      rw [run, List.foldlM_cons, called]
      exact ran

/-- The output begins what the bytes taken stand for, whatever follows them. -/
theorem Session.Faithful.output_begins {session : Session} {ahead : List Bool}
    (faithful : session.Faithful ahead) (rest : List UInt8) :
    session.output <+: decodeBytes (session.taken ++ rest) := by
  have whole := faithful.outcome_eq (bits rest)
  have said : session.output.reverse <:+
      session.hsd.outcome ahead (bits rest) session.output.reverse := suffix_resume _ _ _
  have begun := List.reverse_prefix.mpr said
  rw [List.reverse_reverse] at begun
  rw [decodeBytes, decode, bits_append, show expand _ [] = _ from whole]
  exact begun

/-- With nothing more to say, the output is everything. -/
theorem Session.Faithful.output_eq {session : Session} {ahead : List Bool}
    (faithful : session.Faithful ahead)
    (starved : Starved windowBits lookaheadBits session.hsd.phase ahead) :
    session.output = decodeBytes session.taken := by
  have whole := faithful.outcome_eq []
  rw [List.append_nil, outcome, List.append_nil, resume_starved starved] at whole
  rw [decodeBytes, decode, show expand _ [] = _ from whole, List.reverse_reverse]

/-- FINISH_DONE means that nothing is left to say. -/
theorem Session.Faithful.starved_of_finish {session : Session} {ahead : List Bool}
    (faithful : session.Faithful ahead) (done : session.hsd.finish = false) :
    Starved windowBits lookaheadBits session.hsd.phase ahead := by
  have idle : session.hsd.state ≠ .yieldBackref ∧ session.hsd.inputSize = 0 := by
    unfold finish at done
    split at done
    · cases done
    next notCopying => exact ⟨notCopying, by simpa using done⟩
  rcases faithful.rests idle.2 with copying | starved
  · exact absurd copying idle.1
  · exact starved

end HeatshrinkDecoder

end LoraSerial.Heatshrink
