import LoraSerial.Heatshrink.Search
import LoraSerial.Library.Lzss

/-!
Owns the heatshrink encoder as the source runs it: the bit writer, the polling state machine
with its ten states, and `reset`, `sink`, `poll` and `finish` with their misuse exits. Does
not own what the output means.
-/

namespace LoraSerial.Heatshrink

/-- HSE_state -/
inductive HseState where
  | notFull
  | filled
  | search
  | yieldTagBit
  | yieldLiteral
  | yieldBrIndex
  | yieldBrLength
  | saveBacklog
  | flushBits
  | done
deriving DecidableEq, Repr

/-- heatshrink_encoder. `buffer` is the previous window of input, then the current one. -/
structure HeatshrinkEncoder where
  inputSize : Nat
  matchScanIndex : Nat
  matchLength : Nat
  matchPos : Nat
  outgoingBits : Nat
  outgoingBitsCount : Nat
  /-- FLAG_IS_FINISHING -/
  finishing : Bool
  state : HseState
  currentByte : UInt8
  bitIndex : Nat
  searchIndex : List Int
  buffer : List UInt8

/-- `get_input_buffer_size`, and `get_input_offset` -/
def inputBufSize : Nat := 2 ^ windowBits

/-- `get_lookahead_size` -/
def lookaheadSize : Nat := 2 ^ lookaheadBits

/-- Size of `buffer` and of the index: `2 << HEATSHRINK_ENCODER_WINDOW_BITS` -/
def encoderBufSize : Nat := 2 * inputBufSize

namespace HeatshrinkEncoder

/-- `reset` keeps the last match position and the index. -/
def reset (hse : HeatshrinkEncoder) : HeatshrinkEncoder :=
  { hse with
    buffer := List.replicate encoderBufSize 0
    inputSize := 0
    state := .notFull
    matchScanIndex := 0
    finishing := false
    bitIndex := 0x80
    currentByte := 0
    matchLength := 0
    outgoingBits := 0
    outgoingBitsCount := 0 }

/-- The static encoder before its first use. -/
def static : HeatshrinkEncoder where
  inputSize := 0
  matchScanIndex := 0
  matchLength := 0
  matchPos := 0
  outgoingBits := 0
  outgoingBitsCount := 0
  finishing := false
  state := .notFull
  currentByte := 0
  bitIndex := 0
  searchIndex := List.replicate encoderBufSize 0
  buffer := List.replicate encoderBufSize 0

/-- Copy into the input buffer what fits; says how many bytes were taken, none when the call
is a misuse. -/
def sink (hse : HeatshrinkEncoder) (input : List UInt8) : HeatshrinkEncoder × Nat :=
  if hse.finishing then (hse, 0)
  else if hse.state ≠ .notFull then (hse, 0)
  else
    let writeOffset := inputBufSize + hse.inputSize
    let rem := inputBufSize - hse.inputSize
    let cpSz := if rem < input.length then rem else input.length
    ({ hse with
        buffer := write hse.buffer writeOffset (input.take cpSz)
        inputSize := hse.inputSize + cpSz
        state := if cpSz = rem then .filled else hse.state }, cpSz)

/-! ## The bit writer -/

/-- `for (int i = count - 1; i >= 0; i--)` -/
def pushBitsLoop (bits : UInt8) : (count : Nat) → HeatshrinkEncoder → List UInt8 →
    HeatshrinkEncoder × List UInt8
  | 0, hse, out => (hse, out)
  | i + 1, hse, out =>
      let currentByte :=
        if bits.toNat &&& 1 <<< i ≠ 0 then hse.currentByte ||| UInt8.ofNat hse.bitIndex
        else hse.currentByte
      let bitIndex := hse.bitIndex >>> 1
      if bitIndex = 0 then
        pushBitsLoop bits i { hse with currentByte := 0, bitIndex := 0x80 } (out ++ [currentByte])
      else pushBitsLoop bits i { hse with currentByte := currentByte, bitIndex := bitIndex } out

/-- A whole byte at the start of an output byte goes through as it is. -/
def pushBits (hse : HeatshrinkEncoder) (count : Nat) (bits : UInt8) (out : List UInt8) :
    HeatshrinkEncoder × List UInt8 :=
  if count = 8 ∧ hse.bitIndex = 0x80 then (hse, out ++ [bits])
  else pushBitsLoop bits count hse out

def addTagBit (hse : HeatshrinkEncoder) (tag : Nat) (out : List UInt8) :
    HeatshrinkEncoder × List UInt8 :=
  hse.pushBits 1 (UInt8.ofNat tag) out

/-- Push at most eight of the enqueued bits; says how many. -/
def pushOutgoingBits (hse : HeatshrinkEncoder) (out : List UInt8) :
    HeatshrinkEncoder × List UInt8 × Nat :=
  let count := if 8 < hse.outgoingBitsCount then 8 else hse.outgoingBitsCount
  let bits := UInt8.ofNat
    (if 8 < hse.outgoingBitsCount then hse.outgoingBits >>> (hse.outgoingBitsCount - 8)
      else hse.outgoingBits)
  if 0 < count then
    let pushed := hse.pushBits count bits out
    ({ pushed.1 with outgoingBitsCount := pushed.1.outgoingBitsCount - count }, pushed.2, count)
  else (hse, out, count)

def pushLiteralByte (hse : HeatshrinkEncoder) (out : List UInt8) :
    HeatshrinkEncoder × List UInt8 :=
  let processedOffset := hse.matchScanIndex - 1
  hse.pushBits 8 (hse.buffer.getD (inputBufSize + processedOffset) 0) out

/-! ## The states -/

def stStepSearch (hse : HeatshrinkEncoder) : HeatshrinkEncoder × HseState :=
  let msi := hse.matchScanIndex
  let fin := hse.finishing
  -- The difference is an `int`, negative while less than a lookahead has come.
  if (msi : Int) > (hse.inputSize : Int) - (if fin then 1 else (lookaheadSize : Int)) then
    (hse, if fin then .flushBits else .saveBacklog)
  else
    let stop := inputBufSize + msi
    let start := stop - inputBufSize
    let maxPossible :=
      if hse.inputSize - msi < lookaheadSize then hse.inputSize - msi else lookaheadSize
    match findLongestMatch hse.buffer start stop maxPossible hse.searchIndex with
    | none => ({ hse with matchScanIndex := msi + 1, matchLength := 0 }, .yieldTagBit)
    | some (matchPos, matchLength) =>
        ({ hse with matchPos := matchPos, matchLength := matchLength }, .yieldTagBit)

def stYieldTagBit (hse : HeatshrinkEncoder) (bufSize : Nat) (out : List UInt8) :
    HeatshrinkEncoder × List UInt8 × HseState :=
  if out.length < bufSize then
    if hse.matchLength = 0 then
      let pushed := hse.addTagBit literalMarker out
      (pushed.1, pushed.2, .yieldLiteral)
    else
      let pushed := hse.addTagBit backrefMarker out
      ({ pushed.1 with outgoingBits := hse.matchPos - 1, outgoingBitsCount := windowBits },
        pushed.2, .yieldBrIndex)
  else (hse, out, .yieldTagBit)

def stYieldLiteral (hse : HeatshrinkEncoder) (bufSize : Nat) (out : List UInt8) :
    HeatshrinkEncoder × List UInt8 × HseState :=
  if out.length < bufSize then
    let pushed := hse.pushLiteralByte out
    (pushed.1, pushed.2, .search)
  else (hse, out, .yieldLiteral)

def stYieldBrIndex (hse : HeatshrinkEncoder) (bufSize : Nat) (out : List UInt8) :
    HeatshrinkEncoder × List UInt8 × HseState :=
  if out.length < bufSize then
    let (pushed, pushedOut, count) := hse.pushOutgoingBits out
    if 0 < count then (pushed, pushedOut, .yieldBrIndex)
    else
      ({ pushed with
          outgoingBits := pushed.matchLength - 1, outgoingBitsCount := lookaheadBits },
        pushedOut, .yieldBrLength)
  else (hse, out, .yieldBrIndex)

def stYieldBrLength (hse : HeatshrinkEncoder) (bufSize : Nat) (out : List UInt8) :
    HeatshrinkEncoder × List UInt8 × HseState :=
  if out.length < bufSize then
    let (pushed, pushedOut, count) := hse.pushOutgoingBits out
    if 0 < count then (pushed, pushedOut, .yieldBrLength)
    else
      ({ pushed with
          matchScanIndex := pushed.matchScanIndex + pushed.matchLength, matchLength := 0 },
        pushedOut, .search)
  else (hse, out, .yieldBrLength)

/-- Processed input moves to the front, where later matches find it. -/
def saveBacklog (hse : HeatshrinkEncoder) : HeatshrinkEncoder :=
  let rem := inputBufSize - hse.matchScanIndex
  let shiftSz := inputBufSize + rem
  { hse with
    buffer := write hse.buffer 0 ((hse.buffer.drop (inputBufSize - rem)).take shiftSz)
    matchScanIndex := 0
    inputSize := hse.inputSize - (inputBufSize - rem) }

def stFlushBitBuffer (hse : HeatshrinkEncoder) (bufSize : Nat) (out : List UInt8) :
    List UInt8 × HseState :=
  if hse.bitIndex = 0x80 then (out, .done)
  else if out.length < bufSize then (out ++ [hse.currentByte], .done)
  else (out, .flushBits)

/-- One turn of `switch (in_state)` that does not return. -/
def step (hse : HeatshrinkEncoder) (bufSize : Nat) (out : List UInt8) :
    HeatshrinkEncoder × List UInt8 × HseState :=
  match hse.state with
  | .filled =>
      ({ hse with
          searchIndex := doIndexing hse.buffer (inputBufSize + hse.inputSize) hse.searchIndex },
        out, .search)
  | .search => (hse.stStepSearch.1, out, hse.stStepSearch.2)
  | .yieldTagBit => hse.stYieldTagBit bufSize out
  | .yieldLiteral => hse.stYieldLiteral bufSize out
  | .yieldBrIndex => hse.stYieldBrIndex bufSize out
  | .yieldBrLength => hse.stYieldBrLength bufSize out
  | .saveBacklog => (hse.saveBacklog, out, .notFull)
  | .notFull | .flushBits | .done => (hse, out, hse.state)

/-- HSE_poll_res -/
inductive HsePollRes where
  | empty
  | more
  | errorMisuse
deriving DecidableEq, Repr

/-- What `heatshrink_encoder_poll` leaves and returns. -/
structure Polled where
  hse : HeatshrinkEncoder
  output : List UInt8
  res : HsePollRes

/-- `while (1)`; `none` when the fuel does not last. -/
def pollLoop (bufSize : Nat) : Nat → HeatshrinkEncoder → List UInt8 → Option Polled
  | 0, _, _ => none
  | fuel + 1, hse, out =>
      match hse.state with
      | .notFull | .done => some { hse := hse, output := out, res := .empty }
      | .flushBits =>
          -- The case falls through to HSES_DONE.
          let flushed := hse.stFlushBitBuffer bufSize out
          some { hse := { hse with state := flushed.2 }, output := flushed.1, res := .empty }
      | inState =>
          let (next, out, state) := hse.step bufSize out
          if state = inState ∧ out.length = bufSize then
            some { hse := { next with state := state }, output := out, res := .more }
          else pollLoop bufSize fuel { next with state := state } out

/-- At most ten turns for each position of the input buffer. -/
def pollFuel : Nat := 10 * inputBufSize + 20

def poll (hse : HeatshrinkEncoder) (bufSize : Nat) : Option Polled :=
  if bufSize = 0 then some { hse := hse, output := [], res := .errorMisuse }
  else pollLoop bufSize pollFuel hse []

/-- Says whether FINISH_MORE is returned. -/
def finish (hse : HeatshrinkEncoder) : HeatshrinkEncoder × Bool :=
  let state := if hse.state = .notFull then .filled else hse.state
  ({ hse with finishing := true, state := state }, state ≠ .done)

end HeatshrinkEncoder

end LoraSerial.Heatshrink
