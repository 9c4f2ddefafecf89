import LoraSerial.Heatshrink.Greedy

/-!
Owns what the heatshrink encoder means: over any sequence of `sink`, `poll` and `finish`
calls, with any chunks and any output buffers, it writes the greedy parse of the bytes it
took, bit by bit, and the whole of it, padded to a byte, once it is done. A poll always
returns.
-/

namespace LoraSerial.Heatshrink

open Library.BitStream Library.Lzss

namespace HeatshrinkEncoder

/-! ## The bit writer -/

private theorem pushBitsLoop_spec (byte : UInt8) (count : Nat) {hse : HeatshrinkEncoder}
    {pending : List Bool} (holds : Holds pending hse.currentByte hse.bitIndex)
    (out : List UInt8) :
    ∃ current mask new pending', pushBitsLoop byte count hse out =
        ({ hse with currentByte := current, bitIndex := mask }, out ++ new) ∧
      Holds pending' current mask ∧
      bits new ++ pending' = pending ++ field count byte.toNat := by
  induction count generalizing hse pending out with
  | zero =>
      refine ⟨hse.currentByte, hse.bitIndex, [], pending, ?_, holds, ?_⟩
      · rw [pushBitsLoop, List.append_nil]
      · rw [bits_nil, field, List.append_nil, List.nil_append]
  | succ i inductionHypothesis =>
      obtain ⟨current, named⟩ : ∃ current, current =
          if byte.toNat &&& 1 <<< i ≠ 0 then hse.currentByte ||| UInt8.ofNat hse.bitIndex
          else hse.currentByte := ⟨_, rfl⟩
      have tested : (byte.toNat &&& 1 <<< i ≠ 0) = (byte.toNat.testBit i = true) := by
        rw [Nat.one_shiftLeft]
        exact propext (and_two_pow_ne_zero _ i)
      have written : byteBits current = pending ++ [byte.toNat.testBit i] ++
          List.replicate (7 - pending.length) false := by
        have set := holds.setBit (byte.toNat.testBit i)
        simp only [tested] at named
        rw [named]
        exact set
      have mask := holds.half_mask
      have short := holds.short
      rw [pushBitsLoop, ← named]
      by_cases last : pending.length = 7
      · -- The byte is full and goes out.
        rw [if_pos last] at mask
        rw [last, Nat.sub_self, List.replicate_zero, List.append_nil] at written
        rcases @inductionHypothesis { hse with currentByte := 0, bitIndex := 0x80 } []
          Holds.empty (out ++ [current]) with
          ⟨current', mask', new, pending', pushed, holds', stream⟩
        refine ⟨current', mask', current :: new, pending', ?_, holds', ?_⟩
        · simp only [mask, if_true, pushed, List.append_assoc, List.singleton_append]
        · rw [bits_cons, List.append_assoc, stream, written, field]
          simp
      · rw [if_neg last] at mask
        have next : Holds (pending ++ [byte.toNat.testBit i]) current (hse.bitIndex >>> 1) := by
          refine ⟨?_, ?_, ?_⟩
          · rw [List.length_append, List.length_singleton]
            omega
          · rw [written, List.length_append, List.length_singleton]
            congr 2
            omega
          · rw [mask, List.length_append, List.length_singleton]
        have positive : hse.bitIndex >>> 1 ≠ 0 := by
          rw [mask]
          exact (Nat.two_pow_pos _).ne'
        rcases @inductionHypothesis
          { hse with currentByte := current, bitIndex := hse.bitIndex >>> 1 }
          (pending ++ [byte.toNat.testBit i]) next out with
          ⟨current', mask', new, pending', pushed, holds', stream⟩
        refine ⟨current', mask', new, pending', ?_, holds', ?_⟩
        · simp only [if_neg positive, pushed]
        · rw [stream, field]
          simp

/-- Pushing bits adds them to what the output and the current byte hold, at most one byte
goes out, and nothing else changes. -/
theorem pushBits_spec {hse : HeatshrinkEncoder} {pending : List Bool}
    (holds : Holds pending hse.currentByte hse.bitIndex) {count : Nat} (small : count ≤ 8)
    (byte : UInt8) (out : List UInt8) :
    ∃ current mask new pending', hse.pushBits count byte out =
        ({ hse with currentByte := current, bitIndex := mask }, out ++ new) ∧
      Holds pending' current mask ∧
      bits new ++ pending' = pending ++ field count byte.toNat ∧ new.length ≤ 1 := by
  have short := holds.short
  by_cases whole : count = 8 ∧ hse.bitIndex = 0x80
  · have empty : pending = [] := by
      have mask := holds.mask_eq
      rw [whole.2, show (0x80 : Nat) = 2 ^ 7 from rfl] at mask
      have exponent := Nat.pow_right_injective (Nat.le_refl 2) mask
      exact List.length_eq_zero_iff.mp (by omega)
    subst empty
    refine ⟨hse.currentByte, hse.bitIndex, [byte], [], ?_, holds, ?_, Nat.le_refl 1⟩
    · rw [pushBits, if_pos whole]
    · rw [whole.1]
      simp [byteBits]
  · rcases pushBitsLoop_spec byte count holds out with
      ⟨current, mask, new, pending', pushed, holds', stream⟩
    refine ⟨current, mask, new, pending', ?_, holds', stream, ?_⟩
    · rw [pushBits, if_neg whole, pushed]
    · have total := congrArg List.length stream
      rw [List.length_append, List.length_append, length_bits, length_field] at total
      omega

/-! ## The place in the text -/

/-- The buffer holds the text around the scan: a window before the input, then the input.
`base` bytes of the text have left the input buffer. -/
structure Buffered (hse : HeatshrinkEncoder) (text : List UInt8) (base : Nat) : Prop where
  bufferLength : hse.buffer.length = encoderBufSize
  indexLength : hse.searchIndex.length = encoderBufSize
  size_le : hse.inputSize ≤ inputBufSize
  scan_le : hse.matchScanIndex ≤ hse.inputSize
  length_eq : base + hse.inputSize = text.length
  cell : ∀ index, index < inputBufSize + hse.inputSize →
    hse.buffer.getD index 0 = (padded text).getD (base + index) 0

/-- The index lists the previous instances in the buffer. -/
def IndexedBuffer (hse : HeatshrinkEncoder) : Prop :=
  ∀ pos, pos < inputBufSize + hse.inputSize →
    hse.searchIndex.getD pos (-1) = previous hse.buffer (hse.buffer.getD pos 0) pos

/-- The match found has its fields and lies in the input. -/
def MatchFits (hse : HeatshrinkEncoder) : Prop :=
  1 ≤ hse.matchPos ∧ hse.matchPos ≤ 2 ^ windowBits ∧ 1 < hse.matchLength ∧
    hse.matchLength ≤ 2 ^ lookaheadBits ∧ hse.matchScanIndex + hse.matchLength ≤ hse.inputSize

/-- The byte a literal is about. -/
def literalByte (hse : HeatshrinkEncoder) : UInt8 :=
  hse.buffer.getD (inputBufSize + (hse.matchScanIndex - 1)) 0

/-- The token being written. -/
def current (hse : HeatshrinkEncoder) : Option Token :=
  match hse.state with
  | .yieldTagBit =>
      if hse.matchLength = 0 then some (.literal hse.literalByte)
      else some (.backref hse.matchPos hse.matchLength)
  | .yieldLiteral => some (.literal hse.literalByte)
  | .yieldBrIndex | .yieldBrLength => some (.backref hse.matchPos hse.matchLength)
  | _ => none

/-- Where the token after it starts, in the input buffer. -/
def next (hse : HeatshrinkEncoder) : Nat :=
  match hse.state with
  | .yieldTagBit | .yieldBrIndex | .yieldBrLength => hse.matchScanIndex + hse.matchLength
  | _ => hse.matchScanIndex

/-- The bits of the token that are written. -/
def spelled (hse : HeatshrinkEncoder) : List Bool :=
  match hse.state with
  | .yieldLiteral => [true]
  | .yieldBrIndex =>
      false :: (field windowBits (hse.matchPos - 1)).take (windowBits - hse.outgoingBitsCount)
  | .yieldBrLength =>
      false :: (field windowBits (hse.matchPos - 1) ++
        (field lookaheadBits (hse.matchLength - 1)).take (lookaheadBits - hse.outgoingBitsCount))
  | _ => []

/-- What holds of the scan in each state. -/
def InPlace (hse : HeatshrinkEncoder) : Prop :=
  match hse.state with
  | .notFull =>
      hse.finishing = false ∧ hse.matchScanIndex = 0 ∧ hse.inputSize < inputBufSize
  | .filled => hse.finishing = true ∨ hse.inputSize = inputBufSize
  | .search => (hse.finishing = true ∨ hse.inputSize = inputBufSize) ∧ hse.IndexedBuffer
  | .yieldTagBit =>
      (hse.finishing = true ∨ hse.inputSize = inputBufSize) ∧ hse.IndexedBuffer ∧
        (hse.matchLength = 0 ∧ 1 ≤ hse.matchScanIndex ∨ hse.MatchFits)
  | .yieldLiteral =>
      (hse.finishing = true ∨ hse.inputSize = inputBufSize) ∧ hse.IndexedBuffer ∧
        hse.matchLength = 0
  | .yieldBrIndex =>
      (hse.finishing = true ∨ hse.inputSize = inputBufSize) ∧ hse.IndexedBuffer ∧
        hse.MatchFits ∧ hse.outgoingBits = hse.matchPos - 1 ∧
          (hse.outgoingBitsCount = windowBits ∨ hse.outgoingBitsCount = 0)
  | .yieldBrLength =>
      (hse.finishing = true ∨ hse.inputSize = inputBufSize) ∧ hse.IndexedBuffer ∧
        hse.MatchFits ∧ hse.outgoingBits = hse.matchLength - 1 ∧
          (hse.outgoingBitsCount = lookaheadBits ∨ hse.outgoingBitsCount = 0)
  | .saveBacklog =>
      hse.finishing = false ∧ hse.inputSize = inputBufSize ∧ 1 ≤ hse.matchScanIndex
  | .flushBits => hse.finishing = true ∧ hse.matchScanIndex = hse.inputSize
  | .done => False

/-- What may still come behind the text. -/
def MayFollow (hse : HeatshrinkEncoder) (future : List UInt8) : Prop :=
  hse.finishing = true → future = []

/-- The encoder that is not done: the bytes sent and the pending bits spell the tokens so far
and the written part of the current one; these begin the greedy parse of the text, whatever
follows it. -/
structure Standing (hse : HeatshrinkEncoder) (text sent : List UInt8) (base : Nat)
    (tokens : List Token) (pending : List Bool) : Prop where
  buffered : Buffered hse text base
  holds : Holds pending hse.currentByte hse.bitIndex
  written : bits sent ++ pending = spell windowBits lookaheadBits tokens ++ hse.spelled
  plan : ∀ future, hse.MayFollow future → greedy (text ++ future) 0 =
    tokens ++ (hse.current.toList ++ greedy (text ++ future) (base + hse.next))
  place : InPlace hse

/-! ## The search in the buffer is the search in the text -/

theorem getD_padded_append {text future : List UInt8} {index : Nat}
    (inside : index < inputBufSize + text.length) :
    (padded (text ++ future)).getD index 0 = (padded text).getD index 0 := by
  rw [padded, padded, ← List.append_assoc, List.getD_append _ _ _ _ (by
    rw [List.length_append, List.length_replicate]; exact inside)]

private theorem findLongestMatch_eq_nextMatch {hse : HeatshrinkEncoder}
    {text future : List UInt8} {base : Nat} (buffered : Buffered hse text base)
    (indexed : hse.IndexedBuffer) (inside : hse.matchScanIndex < hse.inputSize)
    (enough : future = [] ∨ hse.matchScanIndex + lookaheadSize ≤ hse.inputSize) :
    findLongestMatch hse.buffer (inputBufSize + hse.matchScanIndex - inputBufSize)
        (inputBufSize + hse.matchScanIndex)
        (if hse.inputSize - hse.matchScanIndex < lookaheadSize then
          hse.inputSize - hse.matchScanIndex else lookaheadSize) hse.searchIndex =
      nextMatch (text ++ future) (base + hse.matchScanIndex) := by
  have length := buffered.length_eq
  obtain ⟨maxlen, capped⟩ : ∃ maxlen, maxlen =
      if hse.inputSize - hse.matchScanIndex < lookaheadSize then
        hse.inputSize - hse.matchScanIndex else lookaheadSize := ⟨_, rfl⟩
  have positive : 0 < lookaheadSize := by decide
  have bounds : 0 < maxlen ∧ hse.matchScanIndex + maxlen ≤ hse.inputSize := by
    rw [capped]
    split <;> omega
  have same : maxlen =
      min lookaheadSize ((text ++ future).length - (base + hse.matchScanIndex)) := by
    rw [capped, List.length_append]
    rcases enough with rfl | enough
    · rw [List.length_nil]
      split <;> omega
    · rw [if_neg (by omega)]
      omega
  rw [← capped, findLongestMatch_eq_plain fun pos below => indexed pos (by omega),
    Nat.add_sub_cancel_left, nextMatch, ← same]
  apply Option.ext
  rintro ⟨distance, length'⟩
  have bufferSame : ∀ index, index < inputBufSize + hse.matchScanIndex + maxlen →
      hse.buffer.getD index 0 = (padded (text ++ future)).getD (base + index) 0 := by
    intro index below
    rw [buffered.cell index (by omega), getD_padded_append (by omega)]
  have shifted := @NearestLongest.transport _ _ base hse.matchScanIndex _ maxlen bufferSame
    distance length'
  rw [show base + (inputBufSize + hse.matchScanIndex) =
    inputBufSize + (base + hse.matchScanIndex) by omega] at shifted
  exact (findLongestMatchPlain_eq_some bounds.1).trans
    (shifted.trans (findLongestMatchPlain_eq_some bounds.1).symm)

/-! ## One turn of the state machine -/

/-- What the turns of the loop use up: positions, and the states a position goes through. -/
def rank (hse : HeatshrinkEncoder) : Nat :=
  let left := 10 * (inputBufSize - hse.matchScanIndex)
  match hse.state with
  | .filled => left + 6
  | .search => left + 5
  | .yieldTagBit => if hse.matchLength = 0 then left + 9 else left + 4
  | .yieldLiteral => left + 8
  | .yieldBrIndex => if hse.outgoingBitsCount = 0 then left + 2 else left + 3
  | .yieldBrLength => if hse.outgoingBitsCount = 0 then left else left + 1
  | .saveBacklog => 1
  | .notFull | .flushBits | .done => 0

/-- A turn either fills the output buffer in its state or gets closer to the end. -/
structure Turn (hse : HeatshrinkEncoder) (text sent : List UInt8) (room : Nat)
    (after : HeatshrinkEncoder) (new : List UInt8) : Prop where
  standing : ∃ base tokens pending, Standing after text (sent ++ new) base tokens pending
  fits : new.length ≤ room
  progress : after.state = hse.state ∧ new.length = room ∨ after.rank < hse.rank
  finishing : after.finishing = hse.finishing

/-- One turn of the loop is a turn in this sense. -/
def Turns (hse : HeatshrinkEncoder) (text sent : List UInt8) (bufSize : Nat)
    (out : List UInt8) : Prop :=
  ∃ after state new, hse.step bufSize out = (after, out ++ new, state) ∧
    Turn hse text sent (bufSize - out.length) { after with state := state } new

section Turns

variable {hse : HeatshrinkEncoder} {text sent : List UInt8} {base : Nat} {tokens : List Token}
  {pending : List Bool} {bufSize : Nat} {out : List UInt8}

/-- A yielding state without room stays as it is. -/
private theorem Turn.full (standing : Standing hse text sent base tokens pending) :
    Turn hse text sent 0 hse [] where
  standing := ⟨base, tokens, pending, by rw [List.append_nil]; exact standing⟩
  fits := Nat.le_refl _
  progress := Or.inl ⟨rfl, rfl⟩
  finishing := rfl

theorem turns_filled (standing : Standing hse text sent base tokens pending)
    (state : hse.state = .filled) : Turns hse text sent bufSize out := by
  have place : hse.finishing = true ∨ hse.inputSize = inputBufSize := by
    have place := standing.place
    rwa [InPlace, state] at place
  have buffered := standing.buffered
  have size := buffered.size_le
  have inIndex : inputBufSize + hse.inputSize ≤ hse.searchIndex.length := by
    rw [buffered.indexLength, encoderBufSize]
    omega
  have stepped : hse.step bufSize out =
      ({ hse with
          searchIndex := doIndexing hse.buffer (inputBufSize + hse.inputSize) hse.searchIndex },
        out ++ [], .search) := by
    simp only [step, state, List.append_nil]
  refine ⟨_, _, [], stepped, ⟨base, tokens, pending, ?_⟩, Nat.zero_le _, Or.inr ?_, rfl⟩
  · refine ⟨⟨buffered.bufferLength, ?_, size, buffered.scan_le, buffered.length_eq,
      buffered.cell⟩, standing.holds, ?_, ?_, place, ?_⟩
    · rw [length_doIndexing, buffered.indexLength]
    · have written := standing.written
      rw [List.append_nil]
      rwa [spelled, state] at written
    · have plan := standing.plan
      rwa [current, next, state] at plan
    · exact fun pos below => getD_doIndexing inIndex below
  · simp only [rank, state]
    omega

/-- The literal or the match the search decides on begins the greedy parse of the rest. -/
theorem turns_search (standing : Standing hse text sent base tokens pending)
    (state : hse.state = .search) : Turns hse text sent bufSize out := by
  have place : (hse.finishing = true ∨ hse.inputSize = inputBufSize) ∧ hse.IndexedBuffer := by
    have place := standing.place
    rwa [InPlace, state] at place
  have buffered := standing.buffered
  have size := buffered.size_le
  have length := buffered.length_eq
  have scan := buffered.scan_le
  have written : bits sent ++ pending = spell windowBits lookaheadBits tokens ++ [] := by
    have written := standing.written
    rwa [spelled, state] at written
  have plan : ∀ future, hse.MayFollow future → greedy (text ++ future) 0 =
      tokens ++ greedy (text ++ future) (base + hse.matchScanIndex) := by
    have plan := standing.plan
    rwa [current, next, state] at plan
  have look : (lookaheadSize : Int) = 16 := rfl
  by_cases exhausted : (hse.matchScanIndex : Int) > (hse.inputSize : Int) -
      (if hse.finishing then 1 else (lookaheadSize : Int))
  · have searched : hse.stStepSearch =
        (hse, if hse.finishing then .flushBits else .saveBacklog) := by
      simp only [stStepSearch, if_pos exhausted]
    cases fin : hse.finishing with
    | true =>
        have stepped : hse.step bufSize out = (hse, out ++ [], .flushBits) := by
          simp only [step, state, searched, fin, if_true, List.append_nil]
        simp only [fin, if_true] at exhausted
        refine ⟨_, _, [], stepped, ⟨base, tokens, pending, ?_⟩, Nat.zero_le _,
          Or.inr ?_, rfl⟩
        · rw [List.append_nil]
          exact ⟨⟨buffered.bufferLength, buffered.indexLength, size, scan, length,
            buffered.cell⟩, standing.holds, written, plan, fin,
            Nat.le_antisymm scan (by simp only; omega)⟩
        · simp [rank, state]
    | false =>
        have stepped : hse.step bufSize out = (hse, out ++ [], .saveBacklog) := by
          simp [step, state, searched, fin]
        have full : hse.inputSize = inputBufSize := by
          rcases place.1 with finishing | full
          · rw [fin] at finishing
            cases finishing
          · exact full
        have passed : 1 ≤ hse.matchScanIndex := by
          simp only [fin, Bool.false_eq_true, if_false, look, full, inputBufSize, windowBits]
            at exhausted
          omega
        refine ⟨_, _, [], stepped, ⟨base, tokens, pending, ?_⟩, Nat.zero_le _,
          Or.inr ?_, rfl⟩
        · rw [List.append_nil]
          exact ⟨⟨buffered.bufferLength, buffered.indexLength, size, scan, length,
            buffered.cell⟩, standing.holds, written, plan, fin, full, passed⟩
        · simp [rank, state]
  · have inside : hse.matchScanIndex < hse.inputSize ∧ ∀ future, hse.MayFollow future →
        future = [] ∨ hse.matchScanIndex + lookaheadSize ≤ hse.inputSize := by
      cases fin : hse.finishing with
      | true =>
          simp only [fin, if_true] at exhausted
          exact ⟨by omega, fun future follows => Or.inl (follows fin)⟩
      | false =>
          simp only [fin, Bool.false_eq_true, if_false] at exhausted
          exact ⟨by omega, fun future _ => Or.inr (by omega)⟩
    have decided := fun future follows => @findLongestMatch_eq_nextMatch hse text future base
      buffered place.2 inside.1 (inside.2 future follows)
    have inText : ∀ future : List UInt8,
        base + hse.matchScanIndex < (text ++ future).length := by
      intro future
      rw [List.length_append]
      omega
    cases found : findLongestMatch hse.buffer
        (inputBufSize + hse.matchScanIndex - inputBufSize) (inputBufSize + hse.matchScanIndex)
        (if hse.inputSize - hse.matchScanIndex < lookaheadSize then
          hse.inputSize - hse.matchScanIndex else lookaheadSize) hse.searchIndex with
    | none =>
        have searched : hse.stStepSearch =
            ({ hse with matchScanIndex := hse.matchScanIndex + 1, matchLength := 0 },
              .yieldTagBit) := by
          simp only [stStepSearch, if_neg exhausted, found]
        have stepped : hse.step bufSize out =
            ({ hse with matchScanIndex := hse.matchScanIndex + 1, matchLength := 0 }, out ++ [],
              .yieldTagBit) := by
          simp only [step, state, searched, List.append_nil]
        refine ⟨_, _, [], stepped, ⟨base, tokens, pending, ?_⟩, Nat.zero_le _,
          Or.inr ?_, rfl⟩
        · rw [List.append_nil]
          refine ⟨⟨buffered.bufferLength, buffered.indexLength, size, inside.1, length,
            buffered.cell⟩, standing.holds, written, ?_, place.1, place.2,
            Or.inl ⟨rfl, Nat.le_add_left 1 _⟩⟩
          intro future follows
          have literal := greedy_literal (inText future)
            ((decided future follows).symm.trans found)
          have byte : (text ++ future).getD (base + hse.matchScanIndex) 0 =
              hse.buffer.getD (inputBufSize + (hse.matchScanIndex + 1 - 1)) 0 := by
            rw [Nat.add_sub_cancel, buffered.cell _ (by omega),
              List.getD_append _ _ _ _ (by omega), ← getD_padded text, Nat.add_left_comm]
          rw [plan future follows, literal, byte]
          rfl
        · simp only [rank, state]
          simp only [if_true]
          omega
    | some result =>
        rcases result with ⟨matchPos, matchLength⟩
        have searched : hse.stStepSearch =
            ({ hse with matchPos := matchPos, matchLength := matchLength }, .yieldTagBit) := by
          simp only [stStepSearch, if_neg exhausted, found]
        have stepped : hse.step bufSize out =
            ({ hse with matchPos := matchPos, matchLength := matchLength }, out ++ [],
              .yieldTagBit) := by
          simp only [step, state, searched, List.append_nil]
        have here := (decided [] fun _ => rfl).symm.trans found
        rcases fits_of_nextMatch (inText []) here with ⟨positive, near, pays, short, within⟩
        rw [List.append_nil] at within
        have nonzero : matchLength ≠ 0 := by omega
        refine ⟨_, _, [], stepped, ⟨base, tokens, pending, ?_⟩, Nat.zero_le _,
          Or.inr ?_, rfl⟩
        · rw [List.append_nil]
          refine ⟨⟨buffered.bufferLength, buffered.indexLength, size, scan, length,
            buffered.cell⟩, standing.holds, written, ?_, place.1, place.2,
            Or.inr ⟨positive, near, pays, short, by simp only; omega⟩⟩
          intro future follows
          have backref := greedy_backref (inText future)
            ((decided future follows).symm.trans found)
          rw [plan future follows, backref, Nat.add_assoc]
          simp [current, next, nonzero]
        · simp only [rank, state, if_neg nonzero]
          omega

/-- Writing part of a token moves the written part on. -/
private theorem written_push {new : List UInt8} {pending' spelled field : List Bool}
    (written : bits sent ++ pending = spell windowBits lookaheadBits tokens ++ spelled)
    (stream : bits new ++ pending' = pending ++ field) :
    bits (sent ++ new) ++ pending' =
      spell windowBits lookaheadBits tokens ++ (spelled ++ field) := by
  rw [bits_append, List.append_assoc, stream, ← List.append_assoc, written, List.append_assoc]

theorem turns_yieldTagBit (standing : Standing hse text sent base tokens pending)
    (state : hse.state = .yieldTagBit) : Turns hse text sent bufSize out := by
  have place : (hse.finishing = true ∨ hse.inputSize = inputBufSize) ∧ hse.IndexedBuffer ∧
      (hse.matchLength = 0 ∧ 1 ≤ hse.matchScanIndex ∨ hse.MatchFits) := by
    have place := standing.place
    rwa [InPlace, state] at place
  rcases standing.buffered with ⟨bufferLength, indexLength, size, scan, length, cell⟩
  have written : bits sent ++ pending = spell windowBits lookaheadBits tokens ++ [] := by
    have written := standing.written
    rwa [spelled, state] at written
  have plan := standing.plan
  simp only [current, next, state] at plan
  by_cases room : out.length < bufSize
  · by_cases literal : hse.matchLength = 0
    · rcases pushBits_spec standing.holds (show 1 ≤ 8 by decide) (UInt8.ofNat literalMarker)
        out with ⟨byte, mask, new, pending', pushed, holds, stream, one⟩
      have tag : field 1 (UInt8.ofNat literalMarker).toNat = [true] := by decide
      rw [tag] at stream
      have stepped : hse.step bufSize out =
          ({ hse with currentByte := byte, bitIndex := mask }, out ++ new, .yieldLiteral) := by
        simp only [step, state, stYieldTagBit, if_pos room, if_pos literal, addTagBit, pushed]
      rw [if_pos literal, literal] at plan
      refine ⟨_, _, new, stepped, ⟨base, tokens, pending', ?_⟩, by omega,
        Or.inr ?_, rfl⟩
      · exact ⟨⟨bufferLength, indexLength, size, scan, length, cell⟩, holds,
          written_push written stream, plan, place.1, place.2.1, literal⟩
      · simp [rank, state, literal]
    · have fits : hse.MatchFits := place.2.2.resolve_left fun none => literal none.1
      rcases pushBits_spec standing.holds (show 1 ≤ 8 by decide) (UInt8.ofNat backrefMarker)
        out with ⟨byte, mask, new, pending', pushed, holds, stream, one⟩
      have tag : field 1 (UInt8.ofNat backrefMarker).toNat = [false] := by decide
      rw [tag] at stream
      have stepped : hse.step bufSize out =
          ({ hse with
              currentByte := byte, bitIndex := mask
              outgoingBits := hse.matchPos - 1, outgoingBitsCount := windowBits },
            out ++ new, .yieldBrIndex) := by
        simp only [step, state, stYieldTagBit, if_pos room, if_neg literal, addTagBit, pushed]
      rw [if_neg literal] at plan
      refine ⟨_, _, new, stepped, ⟨base, tokens, pending', ?_⟩, by omega,
        Or.inr ?_, rfl⟩
      · refine ⟨⟨bufferLength, indexLength, size, scan, length, cell⟩, holds, ?_, plan,
          place.1, place.2.1, fits, rfl, Or.inl rfl⟩
        rw [written_push written stream]
        rfl
      · simp [rank, state, literal, windowBits]
  · refine ⟨hse, .yieldTagBit, [], ?_, ?_⟩
    · simp only [step, state, stYieldTagBit, if_neg room, List.append_nil]
    · rw [← state, show bufSize - out.length = 0 by omega]
      exact Turn.full standing

theorem turns_yieldLiteral (standing : Standing hse text sent base tokens pending)
    (state : hse.state = .yieldLiteral) : Turns hse text sent bufSize out := by
  have place : (hse.finishing = true ∨ hse.inputSize = inputBufSize) ∧ hse.IndexedBuffer ∧
      hse.matchLength = 0 := by
    have place := standing.place
    rwa [InPlace, state] at place
  rcases standing.buffered with ⟨bufferLength, indexLength, size, scan, length, cell⟩
  have written : bits sent ++ pending = spell windowBits lookaheadBits tokens ++ [true] := by
    have written := standing.written
    rwa [spelled, state] at written
  have plan := standing.plan
  simp only [current, next, state] at plan
  by_cases room : out.length < bufSize
  · rcases pushBits_spec standing.holds (Nat.le_refl 8) hse.literalByte out with
      ⟨byte, mask, new, pending', pushed, holds, stream, one⟩
    have stepped : hse.step bufSize out =
        ({ hse with currentByte := byte, bitIndex := mask }, out ++ new, .search) := by
      rw [literalByte] at pushed
      simp only [step, state, stYieldLiteral, if_pos room, pushLiteralByte, pushed]
    refine ⟨_, _, new, stepped,
      ⟨base, tokens ++ [.literal hse.literalByte], pending', ?_⟩, by omega,
      Or.inr ?_, rfl⟩
    · refine ⟨⟨bufferLength, indexLength, size, scan, length, cell⟩, holds, ?_, ?_, place.1,
        place.2.1⟩
      · rw [written_push written stream, spell_append, List.append_assoc]
        rfl
      · intro future follows
        rw [plan future follows, List.append_assoc]
        rfl
    · simp [rank, state]
  · refine ⟨hse, .yieldLiteral, [], ?_, ?_⟩
    · simp only [step, state, stYieldLiteral, if_neg room, List.append_nil]
    · rw [← state, show bufSize - out.length = 0 by omega]
      exact Turn.full standing

/-- The enqueued bits go out together. -/
private theorem pushOutgoingBits_spec
    (holds : Holds pending hse.currentByte hse.bitIndex) {count : Nat}
    (counted : hse.outgoingBitsCount = count) (positive : 0 < count) (small : count ≤ 8)
    (byte : hse.outgoingBits < 2 ^ 8) (out : List UInt8) :
    ∃ current mask new pending', hse.pushOutgoingBits out =
        ({ hse with currentByte := current, bitIndex := mask, outgoingBitsCount := 0 },
          out ++ new, count) ∧
      Holds pending' current mask ∧
      bits new ++ pending' = pending ++ field count hse.outgoingBits ∧ new.length ≤ 1 := by
  rcases pushBits_spec holds small (UInt8.ofNat hse.outgoingBits) out with
    ⟨current, mask, new, pending', pushed, holds', stream, one⟩
  rw [UInt8.toNat_ofNat', Nat.mod_eq_of_lt byte] at stream
  refine ⟨current, mask, new, pending', ?_, holds', stream, one⟩
  have notWide : ¬8 < count := by omega
  simp only [pushOutgoingBits, counted, if_neg notWide, if_pos positive, pushed, Nat.sub_self]

private theorem pushOutgoingBits_none (counted : hse.outgoingBitsCount = 0)
    (out : List UInt8) : hse.pushOutgoingBits out = (hse, out, 0) := by
  simp [pushOutgoingBits, counted]

theorem turns_yieldBrIndex (standing : Standing hse text sent base tokens pending)
    (state : hse.state = .yieldBrIndex) : Turns hse text sent bufSize out := by
  have place : (hse.finishing = true ∨ hse.inputSize = inputBufSize) ∧ hse.IndexedBuffer ∧
      hse.MatchFits ∧ hse.outgoingBits = hse.matchPos - 1 ∧
        (hse.outgoingBitsCount = windowBits ∨ hse.outgoingBitsCount = 0) := by
    have place := standing.place
    rwa [InPlace, state] at place
  rcases place with ⟨full, indexed, fits, enqueued, counted⟩
  rcases standing.buffered with ⟨bufferLength, indexLength, size, scan, length, cell⟩
  have written : bits sent ++ pending = spell windowBits lookaheadBits tokens ++
      false :: (field windowBits (hse.matchPos - 1)).take
        (windowBits - hse.outgoingBitsCount) := by
    have written := standing.written
    rwa [spelled, state] at written
  have plan := standing.plan
  simp only [current, next, state] at plan
  by_cases room : out.length < bufSize
  · rcases counted with waiting | pushedOut
    · have byte : hse.outgoingBits < 2 ^ 8 := by
        rw [enqueued]
        have near : hse.matchPos ≤ 2 ^ 8 := fits.2.1
        have positive := fits.1
        omega
      rcases pushOutgoingBits_spec standing.holds waiting (by decide) (by decide) byte out with
        ⟨current, mask, new, pending', pushed, holds, stream, one⟩
      have stepped : hse.step bufSize out =
          ({ hse with currentByte := current, bitIndex := mask, outgoingBitsCount := 0 },
            out ++ new, .yieldBrIndex) := by
        simp only [step, state, stYieldBrIndex, if_pos room, pushed, windowBits]
        simp
      rw [waiting, Nat.sub_self, List.take_zero] at written
      refine ⟨_, _, new, stepped, ⟨base, tokens, pending', ?_⟩, by omega,
        Or.inr ?_, rfl⟩
      · refine ⟨⟨bufferLength, indexLength, size, scan, length, cell⟩, holds, ?_, plan, full,
          indexed, fits, enqueued, Or.inr rfl⟩
        rw [written_push written stream, enqueued]
        rfl
      · simp only [rank, state, waiting, windowBits]
        simp
    · have stepped : hse.step bufSize out =
          ({ hse with
              outgoingBits := hse.matchLength - 1, outgoingBitsCount := lookaheadBits },
            out ++ [], .yieldBrLength) := by
        simp only [step, state, stYieldBrIndex, if_pos room, pushOutgoingBits_none pushedOut,
          Nat.lt_irrefl, if_false, List.append_nil]
      refine ⟨_, _, [], stepped, ⟨base, tokens, pending, ?_⟩, Nat.zero_le _,
        Or.inr ?_, rfl⟩
      · rw [List.append_nil]
        refine ⟨⟨bufferLength, indexLength, size, scan, length, cell⟩, standing.holds, ?_, plan,
          full, indexed, fits, rfl, Or.inl rfl⟩
        rw [written, pushedOut]
        simp [spelled]
      · simp only [rank, state, pushedOut, lookaheadBits]
        simp
  · refine ⟨hse, .yieldBrIndex, [], ?_, ?_⟩
    · simp only [step, state, stYieldBrIndex, if_neg room, List.append_nil]
    · rw [← state, show bufSize - out.length = 0 by omega]
      exact Turn.full standing

theorem turns_yieldBrLength (standing : Standing hse text sent base tokens pending)
    (state : hse.state = .yieldBrLength) : Turns hse text sent bufSize out := by
  have place : (hse.finishing = true ∨ hse.inputSize = inputBufSize) ∧ hse.IndexedBuffer ∧
      hse.MatchFits ∧ hse.outgoingBits = hse.matchLength - 1 ∧
        (hse.outgoingBitsCount = lookaheadBits ∨ hse.outgoingBitsCount = 0) := by
    have place := standing.place
    rwa [InPlace, state] at place
  rcases place with ⟨full, indexed, fits, enqueued, counted⟩
  rcases standing.buffered with ⟨bufferLength, indexLength, size, scan, length, cell⟩
  have written : bits sent ++ pending = spell windowBits lookaheadBits tokens ++
      false :: (field windowBits (hse.matchPos - 1) ++
        (field lookaheadBits (hse.matchLength - 1)).take
          (lookaheadBits - hse.outgoingBitsCount)) := by
    have written := standing.written
    rwa [spelled, state] at written
  have plan := standing.plan
  simp only [current, next, state] at plan
  by_cases room : out.length < bufSize
  · rcases counted with waiting | pushedOut
    · have byte : hse.outgoingBits < 2 ^ 8 := by
        rw [enqueued]
        have short : hse.matchLength ≤ 2 ^ 4 := fits.2.2.2.1
        omega
      rcases pushOutgoingBits_spec standing.holds waiting (by decide) (by decide) byte out with
        ⟨current, mask, new, pending', pushed, holds, stream, one⟩
      have stepped : hse.step bufSize out =
          ({ hse with currentByte := current, bitIndex := mask, outgoingBitsCount := 0 },
            out ++ new, .yieldBrLength) := by
        simp only [step, state, stYieldBrLength, if_pos room, pushed, lookaheadBits]
        simp
      rw [waiting, Nat.sub_self, List.take_zero, List.append_nil] at written
      refine ⟨_, _, new, stepped, ⟨base, tokens, pending', ?_⟩, by omega,
        Or.inr ?_, rfl⟩
      · refine ⟨⟨bufferLength, indexLength, size, scan, length, cell⟩, holds, ?_, plan, full,
          indexed, fits, enqueued, Or.inr rfl⟩
        rw [written_push written stream, enqueued]
        rfl
      · simp only [rank, state, waiting, lookaheadBits]
        simp
    · have stepped : hse.step bufSize out =
          ({ hse with
              matchScanIndex := hse.matchScanIndex + hse.matchLength, matchLength := 0 },
            out ++ [], .search) := by
        simp only [step, state, stYieldBrLength, if_pos room, pushOutgoingBits_none pushedOut,
          Nat.lt_irrefl, if_false, List.append_nil]
      rw [pushedOut, Nat.sub_zero, take_field] at written
      rcases fits with ⟨positive, near, pays, short, within⟩
      refine ⟨_, _, [], stepped,
        ⟨base, tokens ++ [.backref hse.matchPos hse.matchLength], pending, ?_⟩, Nat.zero_le _,
        Or.inr ?_, rfl⟩
      · rw [List.append_nil]
        refine ⟨⟨bufferLength, indexLength, size, within, length, cell⟩, standing.holds, ?_, ?_,
          full, indexed⟩
        · rw [written, spell_append]
          simp [spell, Token.spell, spelled]
        · intro future follows
          rw [plan future follows, List.append_assoc]
          rfl
      · simp only [rank, state, pushedOut]
        simp only [if_true]
        omega
  · refine ⟨hse, .yieldBrLength, [], ?_, ?_⟩
    · simp only [step, state, stYieldBrLength, if_neg room, List.append_nil]
    · rw [← state, show bufSize - out.length = 0 by omega]
      exact Turn.full standing

theorem turns_saveBacklog (standing : Standing hse text sent base tokens pending)
    (state : hse.state = .saveBacklog) : Turns hse text sent bufSize out := by
  have place : hse.finishing = false ∧ hse.inputSize = inputBufSize ∧
      1 ≤ hse.matchScanIndex := by
    have place := standing.place
    rwa [InPlace, state] at place
  rcases standing.buffered with ⟨bufferLength, indexLength, size, scan, length, cell⟩
  have written : bits sent ++ pending = spell windowBits lookaheadBits tokens ++ [] := by
    have written := standing.written
    rwa [spelled, state] at written
  have plan := standing.plan
  simp only [current, next, state] at plan
  have inWindow : hse.matchScanIndex ≤ inputBufSize := by omega
  have back : inputBufSize - (inputBufSize - hse.matchScanIndex) = hse.matchScanIndex := by
    omega
  have twice : encoderBufSize = inputBufSize + inputBufSize := by
    rw [encoderBufSize]
    omega
  have moved : ((hse.buffer.drop hse.matchScanIndex).take
      (inputBufSize + (inputBufSize - hse.matchScanIndex))) =
        hse.buffer.drop hse.matchScanIndex := by
    refine List.take_of_length_le ?_
    rw [List.length_drop, bufferLength]
    omega
  have saved : hse.saveBacklog =
      { hse with
        buffer := write hse.buffer 0 (hse.buffer.drop hse.matchScanIndex)
        matchScanIndex := 0
        inputSize := hse.inputSize - hse.matchScanIndex } := by
    simp only [saveBacklog, back, moved]
  have stepped : hse.step bufSize out =
      ({ hse with
          buffer := write hse.buffer 0 (hse.buffer.drop hse.matchScanIndex)
          matchScanIndex := 0
          inputSize := hse.inputSize - hse.matchScanIndex }, out ++ [], .notFull) := by
    simp only [step, state, saved, List.append_nil]
  refine ⟨_, _, [], stepped, ⟨base + hse.matchScanIndex, tokens, pending, ?_⟩, Nat.zero_le _,
    Or.inr (by simp [rank, state]), rfl⟩
  rw [List.append_nil]
  refine ⟨⟨?_, indexLength, ?_, Nat.zero_le _, ?_, ?_⟩, standing.holds, written, plan,
    place.1, rfl, ?_⟩
  · rw [length_write (by rw [List.length_drop]; omega), bufferLength]
  · show hse.inputSize - hse.matchScanIndex ≤ inputBufSize
    omega
  · show base + hse.matchScanIndex + (hse.inputSize - hse.matchScanIndex) = text.length
    omega
  · intro index below
    have below' : index < inputBufSize + (hse.inputSize - hse.matchScanIndex) := below
    have inside : index < (hse.buffer.drop hse.matchScanIndex).length := by
      rw [List.length_drop, bufferLength]
      omega
    have read := getD_write_cells inside (Nat.zero_le hse.buffer.length)
    rw [Nat.zero_add] at read
    show (write hse.buffer 0 (hse.buffer.drop hse.matchScanIndex)).getD index 0 = _
    rw [read, List.getD_eq_getElem?_getD, List.getElem?_drop, ← List.getD_eq_getElem?_getD,
      cell _ (by omega), Nat.add_assoc]
  · show hse.inputSize - hse.matchScanIndex < inputBufSize
    omega

/-- Every turn that does not return. -/
theorem turns (standing : Standing hse text sent base tokens pending)
    (working : hse.state ≠ .notFull) (unflushed : hse.state ≠ .flushBits) :
    Turns hse text sent bufSize out := by
  have place := standing.place
  cases state : hse.state with
  | notFull => exact absurd state working
  | filled => exact turns_filled standing state
  | search => exact turns_search standing state
  | yieldTagBit => exact turns_yieldTagBit standing state
  | yieldLiteral => exact turns_yieldLiteral standing state
  | yieldBrIndex => exact turns_yieldBrIndex standing state
  | yieldBrLength => exact turns_yieldBrLength standing state
  | saveBacklog => exact turns_saveBacklog standing state
  | flushBits => exact absurd state unflushed
  | done => simp [InPlace, state] at place

end Turns

/-! ## A poll -/

/-- What the encoder has sent, also when it is done: then the whole greedy parse, padded to
a byte. -/
def Sent (hse : HeatshrinkEncoder) (text sent : List UInt8) : Prop :=
  (∃ base tokens pending, Standing hse text sent base tokens pending) ∨
    hse.state = .done ∧ hse.finishing = true ∧
      ∃ padding, padding < 8 ∧ bits sent =
        spell windowBits lookaheadBits (greedy text 0) ++ List.replicate padding false

namespace Sent

variable {hse : HeatshrinkEncoder} {text sent : List UInt8}

/-- An encoder that waits for input has room for some, and was not told to finish. -/
private theorem waiting (means : Sent hse text sent) (state : hse.state = .notFull) :
    hse.finishing = false ∧ hse.inputSize < inputBufSize := by
  rcases means with ⟨base, tokens, pending, standing⟩ | ⟨done, -⟩
  · have place := standing.place
    rw [InPlace, state] at place
    exact ⟨place.1, place.2.2⟩
  · rw [done] at state
    cases state

theorem inputSize_lt (means : Sent hse text sent) (state : hse.state = .notFull) :
    hse.inputSize < inputBufSize :=
  (means.waiting state).2

theorem finishing_of_notFull (means : Sent hse text sent) (state : hse.state = .notFull) :
    hse.finishing = false :=
  (means.waiting state).1

theorem finishing_of_flush (means : Sent hse text sent) (state : hse.state = .flushBits) :
    hse.finishing = true := by
  rcases means with ⟨base, tokens, pending, standing⟩ | ⟨done, -⟩
  · have place := standing.place
    rw [InPlace, state] at place
    exact place.1
  · rw [done] at state
    cases state

theorem finishing_of_done (means : Sent hse text sent) (state : hse.state = .done) :
    hse.finishing = true := by
  rcases means with ⟨base, tokens, pending, standing⟩ | ⟨-, finishing, -⟩
  · have place := standing.place
    rw [InPlace, state] at place
    exact absurd place id
  · exact finishing

end Sent

/-- What a poll that returned has done. -/
structure PollMeaning (hse : HeatshrinkEncoder) (text sent : List UInt8) (room : Nat)
    (polled : Polled) (new : List UInt8) : Prop where
  means : Sent polled.hse text (sent ++ new)
  finishing : polled.hse.finishing = hse.finishing
  fits : new.length ≤ room
  more : polled.res = .more → new.length = room
  rests : polled.hse.state ≠ .saveBacklog
  empty : polled.res = .empty → polled.hse.state = .notFull ∨ polled.hse.state = .done ∨
    polled.hse.state = .flushBits ∧ new.length = room
  valid : polled.res ≠ .errorMisuse

/-- The whole parse is written once the buffer is used up. -/
private theorem Standing.complete {hse : HeatshrinkEncoder} {text sent : List UInt8}
    {base : Nat} {tokens : List Token} {pending : List Bool}
    (standing : Standing hse text sent base tokens pending) (state : hse.state = .flushBits) :
    greedy text 0 = tokens ∧
      bits sent ++ pending = spell windowBits lookaheadBits (greedy text 0) := by
  have place : hse.finishing = true ∧ hse.matchScanIndex = hse.inputSize := by
    have place := standing.place
    rwa [InPlace, state] at place
  have length := standing.buffered.length_eq
  have written := standing.written
  have plan := standing.plan [] fun _ => rfl
  simp only [current, next, state, List.append_nil, Option.toList_none,
    greedy_end (show text.length ≤ base + hse.matchScanIndex by omega)] at plan
  refine ⟨plan, ?_⟩
  rw [written, spelled, state, plan, List.append_nil]

/-- Flushing the bit buffer: done, or the output buffer is full. -/
private theorem Standing.flush {hse : HeatshrinkEncoder} {text sent : List UInt8}
    {base bufSize : Nat} {tokens : List Token} {pending : List Bool} {out : List UInt8}
    (standing : Standing hse text sent base tokens pending) (state : hse.state = .flushBits)
    (fits : out.length ≤ bufSize) :
    ∃ new, (hse.stFlushBitBuffer bufSize out).1 = out ++ new ∧
      PollMeaning hse text sent (bufSize - out.length)
        { hse := { hse with state := (hse.stFlushBitBuffer bufSize out).2 }
          output := out ++ new, res := .empty } new := by
  have finishing : hse.finishing = true := by
    have place := standing.place
    rw [InPlace, state] at place
    exact place.1
  rcases standing.complete state with ⟨-, whole⟩
  have short := standing.holds.short
  by_cases clean : hse.bitIndex = 0x80
  · have empty : pending = [] := by
      have mask := standing.holds.mask_eq
      rw [clean, show (0x80 : Nat) = 2 ^ 7 from rfl] at mask
      have exponent := Nat.pow_right_injective (Nat.le_refl 2) mask
      exact List.length_eq_zero_iff.mp (by omega)
    have flushed : hse.stFlushBitBuffer bufSize out = (out, .done) := by
      rw [stFlushBitBuffer, if_pos clean]
    rw [flushed]
    refine ⟨[], (List.append_nil out).symm, Or.inr ⟨rfl, finishing, 0, by decide, ?_⟩, rfl,
      Nat.zero_le _, (nomatch ·), (nomatch ·), fun _ => Or.inr (Or.inl rfl), (nomatch ·)⟩
    rw [List.append_nil, List.replicate_zero, List.append_nil, ← whole, empty, List.append_nil]
  · have nonempty : pending.length ≠ 0 := by
      intro none
      have mask := standing.holds.mask_eq
      rw [none] at mask
      exact clean mask
    by_cases room : out.length < bufSize
    · have flushed : hse.stFlushBitBuffer bufSize out = (out ++ [hse.currentByte], .done) := by
        rw [stFlushBitBuffer, if_neg clean, if_pos room]
      rw [flushed]
      refine ⟨[hse.currentByte], rfl, Or.inr ⟨rfl, finishing, 8 - pending.length, by omega, ?_⟩,
        rfl, by rw [List.length_singleton]; omega, (nomatch ·), (nomatch ·),
        fun _ => Or.inr (Or.inl rfl), (nomatch ·)⟩
      rw [bits_append, bits_cons, bits_nil, List.append_nil, standing.holds.byte_eq,
        ← List.append_assoc, whole]
    · have flushed : hse.stFlushBitBuffer bufSize out = (out, .flushBits) := by
        rw [stFlushBitBuffer, if_neg clean, if_neg room]
      rw [flushed, ← state]
      refine ⟨[], (List.append_nil out).symm, Or.inl ⟨base, tokens, pending, ?_⟩, rfl,
        Nat.zero_le _, (nomatch ·), ?_, fun _ => Or.inr (Or.inr ⟨state, ?_⟩), (nomatch ·)⟩
      · rw [List.append_nil sent]
        exact standing
      · show hse.state ≠ .saveBacklog
        rw [state]
        exact (nomatch ·)
      · rw [List.length_nil]
        omega

private theorem pollLoop_spec {bufSize fuel : Nat} {hse : HeatshrinkEncoder}
    {text sent out : List UInt8} {base : Nat} {tokens : List Token} {pending : List Bool}
    (standing : Standing hse text sent base tokens pending) (fits : out.length ≤ bufSize)
    (enough : hse.rank < fuel) :
    ∃ polled new, pollLoop bufSize fuel hse out = some polled ∧ polled.output = out ++ new ∧
      PollMeaning hse text sent (bufSize - out.length) polled new := by
  induction fuel generalizing hse sent out base tokens pending with
  | zero => omega
  | succ fuel inductionHypothesis =>
      by_cases idle : hse.state = .notFull
      · have looped : pollLoop bufSize (fuel + 1) hse out =
            some { hse := hse, output := out, res := .empty } := by rw [pollLoop, idle]
        refine ⟨{ hse := hse, output := out, res := .empty }, [], looped,
          (List.append_nil out).symm, Or.inl ⟨base, tokens, pending, ?_⟩, rfl, Nat.zero_le _,
          (nomatch ·), ?_, fun _ => Or.inl idle, (nomatch ·)⟩
        · rw [List.append_nil sent]
          exact standing
        · show hse.state ≠ .saveBacklog
          rw [idle]
          exact (nomatch ·)
      by_cases flushing : hse.state = .flushBits
      · rcases standing.flush flushing fits with ⟨new, output, meaning⟩
        refine ⟨_, new, ?_, rfl, meaning⟩
        rw [pollLoop, flushing]
        simp only [output]
      have notDone : hse.state ≠ .done := by
        intro done
        have place := standing.place
        rw [InPlace, done] at place
        exact place
      rcases turns standing idle flushing with
        ⟨after, state, new, stepped, ⟨base', tokens', pending', standing'⟩, bound, progress,
          sameFlag⟩
      have looped : pollLoop bufSize (fuel + 1) hse out =
          if state = hse.state ∧ (out ++ new).length = bufSize then
            some { hse := { after with state := state }, output := out ++ new, res := .more }
          else pollLoop bufSize fuel { after with state := state } (out ++ new) := by
        rw [pollLoop]
        split
        next stopped => exact absurd stopped idle
        next stopped => exact absurd stopped notDone
        next stopped => exact absurd stopped flushing
        next => rw [stepped]
      have total : (out ++ new).length = out.length + new.length := List.length_append
      by_cases full : state = hse.state ∧ (out ++ new).length = bufSize
      · rw [looped, if_pos full]
        refine ⟨{ hse := { after with state := state }, output := out ++ new, res := .more },
          new, rfl, rfl, Or.inl ⟨base', tokens', pending', standing'⟩, sameFlag, bound,
          fun _ => by omega, ?_, (nomatch ·), (nomatch ·)⟩
        intro saving
        -- Saving the backlog always leads on to another state.
        have before : hse.state = .saveBacklog := full.1.symm.trans saving
        rw [step, before] at stepped
        have left : HseState.notFull = state := congrArg (·.2.2) stepped
        exact absurd (left.trans saving) (nomatch ·)
      · have closer : ({ after with state := state } : HeatshrinkEncoder).rank < hse.rank := by
          rcases progress with ⟨same, filled⟩ | closer
          · exact absurd ⟨same, by omega⟩ full
          · exact closer
        rcases inductionHypothesis standing' (show (out ++ new).length ≤ bufSize by omega)
          (by omega) with ⟨polled, later, ran, output, meaning⟩
        rw [looped, if_neg full]
        refine ⟨polled, new ++ later, ran, by rw [output, List.append_assoc], ?_⟩
        have left : bufSize - (out ++ new).length = bufSize - out.length - new.length := by
          omega
        have room := meaning.fits
        refine ⟨?_, meaning.finishing.trans sameFlag, ?_, ?_, meaning.rests, ?_, meaning.valid⟩
        · rw [← List.append_assoc]
          exact meaning.means
        · rw [List.length_append]
          omega
        · intro more
          have filled := meaning.more more
          rw [List.length_append]
          omega
        · intro empty
          rcases meaning.empty empty with notFull | done | ⟨flush, filled⟩
          · exact Or.inl notFull
          · exact Or.inr (Or.inl done)
          · refine Or.inr (Or.inr ⟨flush, ?_⟩)
            rw [List.length_append]
            omega

theorem rank_lt (hse : HeatshrinkEncoder) : hse.rank < pollFuel := by
  simp only [rank, pollFuel]
  split <;> first | omega | (split <;> omega)

/-- A poll always returns. -/
theorem poll_spec {hse : HeatshrinkEncoder} {text sent : List UInt8}
    (means : Sent hse text sent) {room : Nat} (positive : 0 < room) :
    ∃ polled, hse.poll room = some polled ∧
      PollMeaning hse text sent room polled polled.output := by
  rw [poll, if_neg (by omega)]
  rcases means with ⟨base, tokens, pending, standing⟩ | ⟨done, finishing, padded⟩
  · rcases pollLoop_spec standing (show ([] : List UInt8).length ≤ room from Nat.zero_le room)
      hse.rank_lt with ⟨polled, new, looped, output, meaning⟩
    rw [List.nil_append] at output
    subst output
    exact ⟨polled, looped, meaning⟩
  · refine ⟨{ hse := hse, output := [], res := .empty }, ?_, ?_⟩
    · rw [show pollFuel = pollFuel - 1 + 1 from rfl, pollLoop, done]
    · refine ⟨Or.inr ⟨done, finishing, ?_⟩, rfl, Nat.zero_le _, (nomatch ·), ?_,
        fun _ => Or.inr (Or.inl done), (nomatch ·)⟩
      · rw [List.append_nil]
        exact padded
      · show hse.state ≠ .saveBacklog
        rw [done]
        exact (nomatch ·)

/-- A done encoder stays as it is. -/
theorem poll_done {hse : HeatshrinkEncoder} (done : hse.state = .done) {room : Nat}
    {polled : Polled} (returned : hse.poll room = some polled) : polled.hse.state = .done := by
  rw [poll] at returned
  split at returned
  · cases returned
    exact done
  · rw [show pollFuel = pollFuel - 1 + 1 from rfl, pollLoop, done] at returned
    cases returned
    exact done

/-! ## Sinking and finishing -/

private theorem sink_refused {hse : HeatshrinkEncoder}
    (busy : hse.finishing = true ∨ hse.state ≠ .notFull) (input : List UInt8) :
    hse.sink input = (hse, 0) := by
  rw [sink]
  by_cases finishing : hse.finishing = true
  · rw [if_pos finishing]
  · rw [if_neg finishing, if_pos (busy.resolve_left finishing)]

/-- An encoder that waits for input takes what fits. -/
theorem sink_taken {hse : HeatshrinkEncoder} (finishing : hse.finishing = false)
    (state : hse.state = .notFull) (input : List UInt8) :
    ∃ size, size = min (inputBufSize - hse.inputSize) input.length ∧ hse.sink input =
      ({ hse with
          buffer := write hse.buffer (inputBufSize + hse.inputSize) (input.take size)
          inputSize := hse.inputSize + size
          state := if size = inputBufSize - hse.inputSize then .filled else .notFull },
        size) := by
  refine ⟨_, rfl, ?_⟩
  have capped : (if inputBufSize - hse.inputSize < input.length then
      inputBufSize - hse.inputSize else input.length) =
        min (inputBufSize - hse.inputSize) input.length := by
    split <;> omega
  simp only [sink, finishing, Bool.false_eq_true, if_false, state, ne_eq, not_true_eq_false,
    capped]

theorem sink_spec {hse : HeatshrinkEncoder} {text sent : List UInt8}
    (means : Sent hse text sent) (rests : hse.state ≠ .saveBacklog) (input : List UInt8) :
    Sent (hse.sink input).1 (text ++ input.take (hse.sink input).2) sent ∧
      (hse.sink input).1.state ≠ .saveBacklog ∧
      (hse.sink input).1.finishing = hse.finishing ∧
      (hse.sink input).2 ≤ input.length := by
  by_cases busy : hse.finishing = true ∨ hse.state ≠ .notFull
  · rw [sink_refused busy]
    refine ⟨?_, rests, rfl, Nat.zero_le _⟩
    rw [List.take_zero, List.append_nil]
    exact means
  · have finishing : hse.finishing = false := by
      cases flag : hse.finishing with
      | false => rfl
      | true => exact absurd (Or.inl flag) busy
    have state : hse.state = .notFull := by
      by_contra other
      exact busy (Or.inr other)
    rcases means with ⟨base, tokens, pending, standing⟩ | ⟨done, -⟩
    · rcases sink_taken finishing state input with ⟨size, sized, sunk⟩
      have place : hse.finishing = false ∧ hse.matchScanIndex = 0 ∧
          hse.inputSize < inputBufSize := by
        have place := standing.place
        rwa [InPlace, state] at place
      rcases standing.buffered with ⟨bufferLength, indexLength, -, -, length, cell⟩
      have written : bits sent ++ pending = spell windowBits lookaheadBits tokens ++ [] := by
        have written := standing.written
        rwa [spelled, state] at written
      have plan := standing.plan
      simp only [current, next, state] at plan
      have taken : (input.take size).length = size := List.length_take_of_le (by omega)
      have twice : encoderBufSize = inputBufSize + inputBufSize := by
        rw [encoderBufSize]
        omega
      have fits : inputBufSize + hse.inputSize + (input.take size).length ≤
          hse.buffer.length := by
        rw [taken, bufferLength]
        omega
      have buffered : ∀ other : HseState, Buffered
          { hse with
            buffer := write hse.buffer (inputBufSize + hse.inputSize) (input.take size)
            inputSize := hse.inputSize + size
            state := other } (text ++ input.take size) base := by
        intro other
        refine ⟨?_, indexLength, ?_, ?_, ?_, ?_⟩
        · rw [length_write fits, bufferLength]
        · show hse.inputSize + size ≤ inputBufSize
          omega
        · show hse.matchScanIndex ≤ hse.inputSize + size
          omega
        · rw [List.length_append, taken, ← length, Nat.add_assoc]
        · intro index below
          have below' : index < inputBufSize + (hse.inputSize + size) := below
          show (write hse.buffer (inputBufSize + hse.inputSize) (input.take size)).getD index 0 = _
          by_cases old : index < inputBufSize + hse.inputSize
          · rw [getD_write_of_lt old (by omega), cell index old, getD_padded_append (by omega)]
          · obtain ⟨offset, rfl⟩ : ∃ offset, index = inputBufSize + hse.inputSize + offset :=
              ⟨index - (inputBufSize + hse.inputSize), by omega⟩
            rw [getD_write_cells (by rw [taken]; omega) (by omega),
              show base + (inputBufSize + hse.inputSize + offset) =
                inputBufSize + (text.length + offset) by omega,
              getD_padded, List.getD_append_right _ _ _ _ (Nat.le_add_right _ _),
              Nat.add_sub_cancel_left]
      have planned : ∀ future, greedy (text ++ input.take size ++ future) 0 =
          tokens ++ ([] ++ greedy (text ++ input.take size ++ future)
            (base + hse.matchScanIndex)) := by
        intro future
        rw [List.append_assoc]
        exact plan (input.take size ++ future) fun set => absurd set (by simp [finishing])
      rw [sunk]
      by_cases full : size = inputBufSize - hse.inputSize
      · simp only [if_pos full]
        refine ⟨Or.inl ⟨base, tokens, pending, buffered _, standing.holds, written,
          fun future _ => planned future, Or.inr ?_⟩, (nomatch ·), trivial, by omega⟩
        show hse.inputSize + size = inputBufSize
        omega
      · simp only [if_neg full]
        refine ⟨Or.inl ⟨base, tokens, pending, buffered _, standing.holds, written,
          fun future _ => planned future, finishing, place.2.1, ?_⟩, (nomatch ·), trivial,
          by omega⟩
        show hse.inputSize + size < inputBufSize
        omega
    · rw [done] at state
      cases state

/-- Setting FLAG_IS_FINISHING keeps the place in a state that works. -/
private theorem Standing.place_finishing {hse : HeatshrinkEncoder} {text sent : List UInt8}
    {base : Nat} {tokens : List Token} {pending : List Bool}
    (standing : Standing hse text sent base tokens pending) (working : hse.state ≠ .notFull)
    (rests : hse.state ≠ .saveBacklog) : InPlace { hse with finishing := true } := by
  have place := standing.place
  cases state : hse.state with
  | notFull => exact absurd state working
  | saveBacklog => exact absurd state rests
  | filled =>
      simp only [InPlace]
      exact Or.inl trivial
  | flushBits =>
      rw [InPlace, state] at place
      simp only [InPlace]
      exact ⟨trivial, place.2⟩
  | search | yieldTagBit | yieldLiteral | yieldBrIndex | yieldBrLength =>
      rw [InPlace, state] at place
      simp only [InPlace]
      exact ⟨Or.inl trivial, place.2⟩
  | done => simp [InPlace, state] at place

theorem finish_spec {hse : HeatshrinkEncoder} {text sent : List UInt8}
    (means : Sent hse text sent) (rests : hse.state ≠ .saveBacklog) :
    Sent hse.finish.1 text sent ∧ hse.finish.1.state ≠ .saveBacklog ∧
      (hse.finish.2 = false → hse.finish.1.state = .done) := by
  rcases means with ⟨base, tokens, pending, standing⟩ | ⟨done, finishing, padded⟩
  · rcases standing.buffered with ⟨bufferLength, indexLength, size, scan, length, cell⟩
    have written := standing.written
    have plan := standing.plan [] fun _ => rfl
    by_cases idle : hse.state = .notFull
    · have finished : hse.finish = ({ hse with finishing := true, state := .filled }, true) := by
        simp [finish, idle]
      rw [finished]
      refine ⟨Or.inl ⟨base, tokens, pending, ⟨bufferLength, indexLength, size, scan, length,
        cell⟩, standing.holds, ?_, ?_, Or.inl rfl⟩, (nomatch ·), (nomatch ·)⟩
      · rwa [spelled, idle] at written
      · rintro future follows
        cases follows rfl
        rwa [current, next, idle] at plan
    · have finished : hse.finish =
          ({ hse with finishing := true }, decide (hse.state ≠ .done)) := by
        simp [finish, idle]
      rw [finished]
      refine ⟨Or.inl ⟨base, tokens, pending, ⟨bufferLength, indexLength, size, scan, length,
        cell⟩, standing.holds, written, ?_, standing.place_finishing idle rests⟩, rests, ?_⟩
      · rintro future follows
        cases follows rfl
        exact plan
      · intro done
        simpa using done
  · have finished : hse.finish = ({ hse with finishing := true }, false) := by
      simp [finish, done]
    rw [finished]
    exact ⟨Or.inr ⟨done, rfl, padded⟩, rests, fun _ => done⟩

/-! ## Whole runs -/

inductive Call where
  | sink (input : List UInt8)
  | poll (room : Nat)
  | finish

/-- An encoder in use: what it took, what it gave, and whether the last `finish` returned
FINISH_DONE. -/
structure Session where
  hse : HeatshrinkEncoder
  taken : List UInt8
  output : List UInt8
  done : Bool

/-- A session starts with a reset, whatever the encoder was used for before. -/
def Session.start (hse : HeatshrinkEncoder) : Session where
  hse := hse.reset
  taken := []
  output := []
  done := false

def Session.call (session : Session) : Call → Option Session
  | .sink input =>
      let sunk := session.hse.sink input
      some { session with hse := sunk.1, taken := session.taken ++ input.take sunk.2 }
  | .poll room => (session.hse.poll room).map fun polled =>
      { session with hse := polled.hse, output := session.output ++ polled.output }
  | .finish =>
      let finished := session.hse.finish
      some { session with hse := finished.1, done := !finished.2 }

def Session.run (session : Session) (calls : List Call) : Option Session :=
  calls.foldlM Session.call session

/-- What holds between two calls. -/
structure Session.Faithful (session : Session) : Prop where
  means : Sent session.hse session.taken session.output
  rests : session.hse.state ≠ .saveBacklog
  done : session.done = true → session.hse.state = .done

theorem sent_reset {hse : HeatshrinkEncoder} (length : hse.searchIndex.length = encoderBufSize) :
    Sent hse.reset [] [] := by
  refine Or.inl ⟨0, [], [], ⟨List.length_replicate, length, Nat.zero_le _, Nat.le_refl _, rfl,
    ?_⟩, Holds.empty, rfl, fun future _ => rfl, rfl, rfl, Nat.two_pow_pos windowBits⟩
  intro index below
  have inWindow : index < inputBufSize := below
  show (List.replicate encoderBufSize 0).getD index 0 = _
  rw [List.getD_replicate _ (by rw [encoderBufSize]; omega), padded, List.append_nil,
    Nat.zero_add, List.getD_replicate _ inWindow]

theorem Session.start_faithful {hse : HeatshrinkEncoder}
    (length : hse.searchIndex.length = encoderBufSize) : (start hse).Faithful where
  means := sent_reset length
  rests := (nomatch ·)
  done := (nomatch ·)

/-- One call returns and keeps the session faithful. -/
theorem Session.call_faithful {session : Session} (faithful : session.Faithful) (c : Call) :
    ∃ after, session.call c = some after ∧ after.Faithful := by
  cases c with
  | sink input =>
      rcases sink_spec faithful.means faithful.rests input with ⟨means, rests, -, -⟩
      refine ⟨_, rfl, means, rests, ?_⟩
      intro done
      have state := faithful.done done
      have refused := sink_refused (Or.inr (show session.hse.state ≠ .notFull by
        rw [state]
        decide)) input
      rw [refused]
      exact state
  | poll room =>
      by_cases positive : 0 < room
      · rcases poll_spec faithful.means positive with ⟨polled, returned, meaning⟩
        refine ⟨_, by rw [call, returned]; rfl, meaning.means, meaning.rests, ?_⟩
        intro done
        have stays := poll_done (faithful.done done) returned
        exact stays
      · have misuse : session.hse.poll room =
            some { hse := session.hse, output := [], res := .errorMisuse } := by
          rw [poll, if_pos (by omega)]
        refine ⟨{ session with output := session.output ++ [] }, by rw [call, misuse]; rfl, ?_,
          faithful.rests, faithful.done⟩
        rw [List.append_nil]
        exact faithful.means
  | finish =>
      rcases finish_spec faithful.means faithful.rests with ⟨means, rests, done⟩
      exact ⟨_, rfl, means, rests, fun set => done (by simpa using set)⟩

theorem Session.run_faithful {session : Session} (faithful : session.Faithful)
    (calls : List Call) : ∃ after, session.run calls = some after ∧ after.Faithful := by
  induction calls generalizing session with
  | nil => exact ⟨session, rfl, faithful⟩
  | cons c rest inductionHypothesis =>
      rcases call_faithful faithful c with ⟨middle, called, faithful'⟩
      rcases inductionHypothesis faithful' with ⟨after, ran, faithful''⟩
      refine ⟨after, ?_, faithful''⟩
      rw [run, List.foldlM_cons, called]
      exact ran

/-- The written part of the current token begins its spelling. -/
private theorem spelled_begins (hse : HeatshrinkEncoder) :
    hse.spelled <+: spell windowBits lookaheadBits hse.current.toList := by
  cases state : hse.state with
  | yieldTagBit => simp [spelled, state]
  | yieldLiteral =>
      simp only [spelled, current, state]
      exact ⟨byteBits hse.literalByte, by simp [spell, Token.spell]⟩
  | yieldBrIndex =>
      simp only [spelled, current, state]
      refine ⟨(field windowBits (hse.matchPos - 1)).drop (windowBits - hse.outgoingBitsCount) ++
        field lookaheadBits (hse.matchLength - 1), ?_⟩
      simp [spell, Token.spell, ← List.append_assoc]
  | yieldBrLength =>
      simp only [spelled, current, state]
      refine ⟨(field lookaheadBits (hse.matchLength - 1)).drop
        (lookaheadBits - hse.outgoingBitsCount), ?_⟩
      simp [spell, Token.spell]
  | notFull | filled | search | saveBacklog | flushBits | done => simp [spelled, state]

/-- While more may come, the bits out begin the greedy parse of whatever the text becomes. -/
theorem Sent.output_begins {hse : HeatshrinkEncoder} {text sent future : List UInt8}
    (means : Sent hse text sent) (follows : hse.MayFollow future)
    (working : hse.state ≠ .done) :
    bits sent <+: spell windowBits lookaheadBits (greedy (text ++ future) 0) := by
  rcases means with ⟨base, tokens, pending, standing⟩ | ⟨done, -⟩
  · rw [standing.plan future follows, spell_append, spell_append]
    refine (List.prefix_append _ pending).trans ?_
    rw [standing.written, List.prefix_append_right_inj]
    exact (spelled_begins hse).trans (List.prefix_append _ _)
  · exact absurd done working

/-- FINISH_DONE: the output is the whole greedy parse, padded to a byte. -/
theorem Sent.output_done {hse : HeatshrinkEncoder} {text sent : List UInt8}
    (means : Sent hse text sent) (done : hse.state = .done) :
    ∃ padding, padding < 8 ∧ bits sent =
      spell windowBits lookaheadBits (greedy text 0) ++ List.replicate padding false := by
  rcases means with ⟨base, tokens, pending, standing⟩ | ⟨-, -, padded⟩
  · have place := standing.place
    rw [InPlace, done] at place
    exact absurd place id
  · exact padded

end HeatshrinkEncoder

end LoraSerial.Heatshrink
