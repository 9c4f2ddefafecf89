import LoraSerial.Heatshrink.Decoding
import LoraSerial.Heatshrink.Encoding
import LoraSerial.LinkLayer.Codec

/-!
Owns the heatshrink coder as the link layer's payload transform: both halves are streaming
coders, and what `Compress` and `Decompress` return with them. Decompressing what was
compressed gives the payload back.
-/

namespace LoraSerial.LinkLayer.StreamCoder

/-! ## What every call keeps, the drivers keep -/

/-- A relation between a coder, the bytes it took and the bytes it gave that holds after the
reset and after every call. Its flag says that `finish` was called, after which nothing more
is sunk. -/
structure Kept (coder : StreamCoder) (Related : Bool → coder.State → Bytes → Bytes → Prop) :
    Prop where
  reset : Related false coder.reset [] []
  sink : ∀ {state taken out} input, Related false state taken out →
    Related false (coder.sink state input).1 (taken ++ input.take (coder.sink state input).2) out
  poll : ∀ {flag state taken out} room, 0 < room → Related flag state taken out →
    Related flag (coder.poll state room).state taken (out ++ (coder.poll state room).output)
  finish : ∀ {flag state taken out}, Related flag state taken out →
    Related true (coder.finish state).1 taken out

/-- A full output buffer, reached on a part of the source, or at its end. -/
def Filled {coder : StreamCoder} (Related : Bool → coder.State → Bytes → Bytes → Prop)
    (src : Bytes) (cap : Nat) : Prop :=
  ∃ flag state taken rest out, Related flag state taken out ∧ src = taken ++ rest ∧
    (flag = true → rest = []) ∧ cap ≤ out.length

namespace Kept

variable {coder : StreamCoder} {Related : Bool → coder.State → Bytes → Bytes → Prop}
  {cap fuel : Nat} {flag : Bool} {state : coder.State} {taken out : Bytes}

private theorem pollLoop (kept : Kept coder Related) (related : Related flag state taken out) :
    (coder.pollLoop cap fuel state out = .full →
      ∃ state out, Related flag state taken out ∧ cap ≤ out.length) ∧
    ∀ result, coder.pollLoop cap fuel state out = .done result →
      Related flag result.1 taken result.2 := by
  induction fuel generalizing state out with
  | zero => simp [StreamCoder.pollLoop]
  | succ fuel inductionHypothesis =>
      rw [StreamCoder.pollLoop]
      by_cases full : cap ≤ out.length
      · rw [if_pos full]
        exact ⟨fun _ => ⟨state, out, related, full⟩, by simp⟩
      · rw [if_neg full]
        have polled := kept.poll (cap - out.length) (by omega) related
        by_cases more : (coder.poll state (cap - out.length)).more = true
        · simp only [more, if_true]
          exact inductionHypothesis polled
        · simp only [more]
          refine ⟨by simp, fun result stopped => ?_⟩
          cases stopped
          exact polled

private theorem sinkLoop (kept : Kept coder Related) {src input : Bytes}
    (related : Related false state taken out) (split : src = taken ++ input) :
    (coder.sinkLoop cap fuel state input out = .full → Filled Related src cap) ∧
    ∀ result, coder.sinkLoop cap fuel state input out = .done result →
      Related false result.1 src result.2 := by
  induction fuel generalizing state taken out input with
  | zero => simp [StreamCoder.sinkLoop]
  | succ fuel inductionHypothesis =>
      rw [StreamCoder.sinkLoop]
      by_cases empty : input = []
      · rw [if_pos empty]
        refine ⟨by simp, fun result stopped => ?_⟩
        cases stopped
        rw [split, empty, List.append_nil]
        exact related
      · rw [if_neg empty]
        have sunk := kept.sink input related
        have split' : src = taken ++ input.take (coder.sink state input).2 ++
            input.drop (coder.sink state input).2 := by
          rw [List.append_assoc, List.take_append_drop, split]
        cases ran : coder.pollLoop cap (cap + 2) (coder.sink state input).1 out with
        | running => simp [ran]
        | full =>
            simp only [ran]
            rcases (kept.pollLoop sunk).1 ran with ⟨state', out', related', full⟩
            exact ⟨fun _ => ⟨false, state', _, _, out', related', split',
              fun set => absurd set (by decide), full⟩, by simp⟩
        | done result =>
            simp only [ran]
            exact inductionHypothesis ((kept.pollLoop sunk).2 result ran) split'

private theorem finishLoop (kept : Kept coder Related) (related : Related flag state taken out) :
    (coder.finishLoop cap fuel state out = .full →
      ∃ flag state out, Related flag state taken out ∧ cap ≤ out.length) ∧
    ∀ result, coder.finishLoop cap fuel state out = .done result →
      ∃ flag state, Related flag state taken result ∧ (coder.finish state).2 = false := by
  induction fuel generalizing flag state out with
  | zero => simp [StreamCoder.finishLoop]
  | succ fuel inductionHypothesis =>
      rw [StreamCoder.finishLoop]
      by_cases more : (coder.finish state).2 = true
      · simp only [more, if_true]
        by_cases full : cap ≤ out.length
        · rw [if_pos full]
          exact ⟨fun _ => ⟨flag, state, out, related, full⟩, by simp⟩
        · rw [if_neg full]
          exact inductionHypothesis (kept.poll _ (by omega) (kept.finish related))
      · simp only [more]
        refine ⟨by simp, fun result stopped => ?_⟩
        cases stopped
        exact ⟨flag, state, related, by simpa using more⟩

/-- The driver stops with what the whole source stands for, or with a full buffer. -/
theorem drive (kept : Kept coder Related) (src : Bytes) (cap : Nat) :
    (coder.drive src cap = .full → Filled Related src cap) ∧
    ∀ out, coder.drive src cap = .done out →
      ∃ flag state, Related flag state src out ∧ (coder.finish state).2 = false := by
  have split : src = [] ++ src := (List.nil_append src).symm
  rw [StreamCoder.drive]
  cases ran : coder.sinkLoop cap (src.length + 1) coder.reset src [] with
  | running => simp
  | full => exact ⟨fun _ => (kept.sinkLoop kept.reset split).1 ran, by simp⟩
  | done result =>
      have sunk := (kept.sinkLoop kept.reset split).2 result ran
      refine ⟨fun stopped => ?_, (kept.finishLoop sunk).2⟩
      rcases (kept.finishLoop sunk).1 stopped with ⟨flag, state, out, related, full⟩
      exact ⟨flag, state, src, [], out, related, (List.append_nil src).symm, fun _ => rfl, full⟩

end Kept

end LoraSerial.LinkLayer.StreamCoder

namespace LoraSerial.Heatshrink

open LinkLayer Library.BitStream Library.Lzss

/-! ## The decoder as a streaming coder -/

/-- A decoder that stands somewhere in a stream. -/
def Decoder : Type :=
  { hsd : HeatshrinkDecoder // ∃ ahead history, hsd.Represents ahead history }

namespace Decoder

open HeatshrinkDecoder

private theorem poll_isSome (decoder : Decoder) (room : Nat) :
    (decoder.1.poll room).isSome := by
  rcases decoder with ⟨hsd, ahead, history, represents⟩
  rcases poll_spec represents room with ⟨polled, -, returned, -⟩
  rw [returned]
  rfl

/-- What the poll returns. -/
def polled (decoder : Decoder) (room : Nat) : HeatshrinkDecoder.Polled :=
  (decoder.1.poll room).get (decoder.poll_isSome room)

theorem poll_eq (decoder : Decoder) (room : Nat) :
    decoder.1.poll room = some (decoder.polled room) :=
  (Option.some_get _).symm

theorem polled_spec (decoder : Decoder) (room : Nat) {ahead : List Bool} {history : Bytes}
    (represents : decoder.1.Represents ahead history) : ∃ ahead',
      PollMeaning decoder.1 ahead history room (decoder.polled room) ahead'
        (decoder.polled room).output := by
  rcases poll_spec represents room with ⟨polled, ahead', returned, meaning⟩
  rw [poll_eq] at returned
  cases returned
  exact ⟨ahead', meaning⟩

def poll (decoder : Decoder) (room : Nat) : PollResult Decoder where
  state := ⟨(decoder.polled room).hsd, by
    rcases decoder.2 with ⟨ahead, history, represents⟩
    rcases decoder.polled_spec room represents with ⟨ahead', meaning⟩
    exact ⟨ahead', _, meaning.represents⟩⟩
  output := (decoder.polled room).output
  more := (decoder.polled room).more

def sink (decoder : Decoder) (input : Bytes) : Decoder × Nat :=
  (⟨(decoder.1.sink input).1, by
    rcases decoder.2 with ⟨ahead, history, represents⟩
    exact ⟨_, _, (sink_spec represents input).1⟩⟩, (decoder.1.sink input).2)

/-- A poll that returned POLL_EMPTY has nothing left to finish. -/
theorem poll_empty (decoder : Decoder) (room : Nat) (empty : (decoder.poll room).more = false) :
    (decoder.poll room).state.1.inputSize = 0 ∧ (decoder.poll room).state.1.finish = false := by
  rcases decoder.2 with ⟨ahead, history, represents⟩
  rcases decoder.polled_spec room represents with ⟨ahead', meaning⟩
  rcases meaning.empty empty with ⟨starved, used⟩
  refine ⟨used, ?_⟩
  show (decoder.polled room).hsd.finish = false
  rw [HeatshrinkDecoder.finish]
  split
  next copying =>
    rw [HeatshrinkDecoder.phase, copying] at starved
    exact absurd starved id
  next => simp [used]

def start : Decoder :=
  ⟨HeatshrinkDecoder.reset, [], [], represents_reset⟩

private theorem sink_takes (decoder : Decoder) (input : Bytes)
    (drained : decoder.1.inputSize < inputBufferSize) (nonempty : input ≠ []) :
    0 < (decoder.sink input).2 := by
  have positive := List.length_pos_iff.mpr nonempty
  show 0 < (decoder.1.sink input).2
  rw [HeatshrinkDecoder.sink, if_neg (by omega)]
  show 0 < if _ then _ else _
  split <;> omega

/-- The decoder's four calls; `finish` does not change it. -/
def coder : StreamCoder where
  State := Decoder
  reset := start
  sink := sink
  poll := poll
  finish := fun decoder => (decoder, decoder.1.finish)
  Busy := fun _ => True
  Drained := fun decoder => decoder.1.inputSize < inputBufferSize
  reset_drained := by decide
  sink_busy := fun _ _ _ => trivial
  sink_takes := sink_takes
  poll_busy := fun _ _ _ _ => trivial
  poll_drained := by
    intro decoder room _ _ empty
    rw [(decoder.poll_empty room empty).1]
    decide
  poll_bounded := by
    intro decoder room
    rcases decoder.2 with ⟨ahead, history, represents⟩
    rcases decoder.polled_spec room represents with ⟨ahead', meaning⟩
    exact meaning.fits
  poll_more_full := by
    intro decoder room more
    rcases decoder.2 with ⟨ahead, history, represents⟩
    rcases decoder.polled_spec room represents with ⟨ahead', meaning⟩
    exact meaning.more_iff.mp more
  finish_flushes := by
    intro decoder room _ short
    rcases decoder.2 with ⟨ahead, history, represents⟩
    rcases decoder.polled_spec room represents with ⟨ahead', meaning⟩
    have empty : (decoder.polled room).more = false := by
      cases more : (decoder.polled room).more with
      | false => rfl
      | true => exact absurd (meaning.more_iff.mp more) (Nat.ne_of_lt short)
    exact (decoder.poll_empty room empty).2

/-- A poll that returned POLL_EMPTY left room in the output buffer. -/
theorem poll_short (decoder : Decoder) (room : Nat) (empty : (decoder.poll room).more = false) :
    (decoder.poll room).output.length < room := by
  rcases decoder.2 with ⟨ahead, history, represents⟩
  rcases decoder.polled_spec room represents with ⟨ahead', meaning⟩
  refine Nat.lt_of_le_of_ne meaning.fits fun full => ?_
  have more : (decoder.polled room).more = true := meaning.more_iff.mpr full
  exact absurd (more.symm.trans empty) (by decide)

theorem coder_poll_empty (decoder : coder.State) (room : Nat)
    (empty : (coder.poll decoder room).more = false) :
    (coder.poll decoder room).output.length < room ∧
      (coder.finish (coder.poll decoder room).state).2 = false :=
  ⟨poll_short decoder room empty, (poll_empty decoder room empty).2⟩

/-- The session the driver is in. -/
def Runs (_ : Bool) (decoder : Decoder) (taken out : Bytes) : Prop :=
  ∃ ahead, Session.Faithful
    { hsd := decoder.1, taken := taken, output := out, drained := false } ahead

theorem coder_kept : StreamCoder.Kept coder Runs where
  reset := by
    exact ⟨[], represents_reset, fun _ => rfl, fun _ => Or.inr rfl,
      fun drained => absurd drained (by decide)⟩
  sink := by
    intro decoder taken out input related
    rcases related with ⟨ahead, faithful⟩
    rcases Session.call_faithful faithful (.sink input) with ⟨after, ahead', called, faithful'⟩
    cases called
    exact ⟨ahead', faithful'⟩
  poll := by
    intro _ (decoder : Decoder) taken out room _ related
    rcases related with ⟨ahead, faithful⟩
    rcases Session.call_faithful faithful (.poll room) with ⟨after, ahead', called, faithful'⟩
    have returned : decoder.1.poll room = some (decoder.polled room) := decoder.poll_eq room
    simp only [Session.call, returned, Option.map_some, Option.some.injEq] at called
    subst called
    exact ⟨ahead', faithful'.represents, faithful'.outcome_eq, faithful'.rests,
      fun drained => absurd drained Bool.false_ne_true⟩
  finish := fun related => related

end Decoder

/-! ## The encoder as a streaming coder -/

/-- An encoder that stands somewhere in a text, between two calls. -/
def Encoder : Type :=
  { hse : HeatshrinkEncoder // ∃ text sent, hse.Sent text sent ∧ hse.state ≠ .saveBacklog }

namespace Encoder

open HeatshrinkEncoder

private theorem poll_isSome (encoder : Encoder) (room : Nat) :
    (encoder.1.poll room).isSome := by
  rcases encoder with ⟨hse, text, sent, means, rests⟩
  by_cases positive : 0 < room
  · rcases poll_spec means positive with ⟨polled, returned, -⟩
    rw [returned]
    rfl
  · rw [HeatshrinkEncoder.poll, if_pos (by omega)]
    rfl

/-- What the poll returns. -/
def polled (encoder : Encoder) (room : Nat) : HeatshrinkEncoder.Polled :=
  (encoder.1.poll room).get (encoder.poll_isSome room)

theorem poll_eq (encoder : Encoder) (room : Nat) :
    encoder.1.poll room = some (encoder.polled room) :=
  (Option.some_get _).symm

theorem polled_spec (encoder : Encoder) {room : Nat} (positive : 0 < room) {text sent : Bytes}
    (means : encoder.1.Sent text sent) :
    PollMeaning encoder.1 text sent room (encoder.polled room) (encoder.polled room).output := by
  rcases poll_spec means positive with ⟨polled, returned, meaning⟩
  rw [poll_eq] at returned
  cases returned
  exact meaning

theorem polled_zero (encoder : Encoder) :
    encoder.polled 0 = { hse := encoder.1, output := [], res := .errorMisuse } := by
  have returned := encoder.poll_eq 0
  rw [HeatshrinkEncoder.poll, if_pos rfl] at returned
  exact (Option.some.inj returned).symm

/-- The driver polls on while POLL_MORE is returned. -/
def poll (encoder : Encoder) (room : Nat) : PollResult Encoder where
  state := ⟨(encoder.polled room).hse, by
    rcases encoder.2 with ⟨text, sent, means, rests⟩
    cases room with
    | zero =>
        rw [polled_zero]
        exact ⟨text, sent, means, rests⟩
    | succ room =>
        have meaning := encoder.polled_spec (Nat.succ_pos room) means
        exact ⟨text, _, meaning.means, meaning.rests⟩⟩
  output := (encoder.polled room).output
  more := (encoder.polled room).res = .more

def sink (encoder : Encoder) (input : Bytes) : Encoder × Nat :=
  (⟨(encoder.1.sink input).1, by
    rcases encoder.2 with ⟨text, sent, means, rests⟩
    rcases sink_spec means rests input with ⟨means', rests', -, -⟩
    exact ⟨_, _, means', rests'⟩⟩, (encoder.1.sink input).2)

def finish (encoder : Encoder) : Encoder × Bool :=
  (⟨encoder.1.finish.1, by
    rcases encoder.2 with ⟨text, sent, means, rests⟩
    rcases finish_spec means rests with ⟨means', rests', -⟩
    exact ⟨text, sent, means', rests'⟩⟩, encoder.1.finish.2)

def start : Encoder :=
  ⟨HeatshrinkEncoder.static.reset, [], [],
    sent_reset (show HeatshrinkEncoder.static.searchIndex.length = encoderBufSize from
      List.length_replicate), by decide⟩

/-- The encoder's four calls. -/
def coder : StreamCoder where
  State := Encoder
  reset := start
  sink := sink
  poll := poll
  finish := finish
  Busy := fun encoder => encoder.1.finishing = false
  Drained := fun encoder => encoder.1.finishing = false ∧ encoder.1.state = .notFull
  reset_drained := ⟨rfl, rfl⟩
  sink_busy := by
    intro encoder input drained
    rcases encoder.2 with ⟨text, sent, means, rests⟩
    exact (sink_spec means rests input).2.2.1.trans drained.1
  sink_takes := by
    intro encoder input drained nonempty
    rcases encoder.2 with ⟨text, sent, means, -⟩
    have positive := List.length_pos_iff.mpr nonempty
    rcases sink_taken drained.1 drained.2 input with ⟨size, sized, sunk⟩
    have roomy : encoder.1.inputSize < inputBufSize := means.inputSize_lt drained.2
    show 0 < (encoder.1.sink input).2
    rw [sunk]
    show 0 < size
    omega
  poll_busy := by
    intro encoder room busy more
    rcases encoder.2 with ⟨text, sent, means, -⟩
    cases room with
    | zero => simp [poll, polled_zero] at more
    | succ room => exact (encoder.polled_spec (Nat.succ_pos room) means).finishing.trans busy
  poll_drained := by
    intro encoder room busy positive empty
    rcases encoder.2 with ⟨text, sent, means, -⟩
    have meaning := encoder.polled_spec positive means
    have finishing := meaning.finishing.trans busy
    refine ⟨finishing, ?_⟩
    have returned : (encoder.polled room).res = .empty := by
      cases res : (encoder.polled room).res with
      | empty => rfl
      | more => simp [poll, res] at empty
      | errorMisuse => exact absurd res meaning.valid
    rcases meaning.empty returned with notFull | done | ⟨flush, -⟩
    · exact notFull
    · exact absurd (meaning.means.finishing_of_done done) (by rw [finishing]; decide)
    · exact absurd (meaning.means.finishing_of_flush flush) (by rw [finishing]; decide)
  poll_bounded := by
    intro encoder room
    rcases encoder.2 with ⟨text, sent, means, -⟩
    cases room with
    | zero => simp [poll, polled_zero]
    | succ room => exact (encoder.polled_spec (Nat.succ_pos room) means).fits
  poll_more_full := by
    intro encoder room more
    rcases encoder.2 with ⟨text, sent, means, -⟩
    cases room with
    | zero => simp [poll, polled_zero] at more
    | succ room =>
        exact (encoder.polled_spec (Nat.succ_pos room) means).more (of_decide_eq_true more)
  finish_flushes := by
    intro encoder room _ short
    have positive : 0 < room := Nat.lt_of_le_of_lt (Nat.zero_le _) short
    rcases (finish encoder).1.2 with ⟨text, sent, means, -⟩
    have meaning := (finish encoder).1.polled_spec positive means
    have finishing : ((finish encoder).1.polled room).hse.finishing = true :=
      meaning.finishing
    have done : ((finish encoder).1.polled room).hse.state = .done := by
      cases res : ((finish encoder).1.polled room).res with
      | more => exact absurd (meaning.more res) (Nat.ne_of_lt short)
      | errorMisuse => exact absurd res meaning.valid
      | empty =>
          rcases meaning.empty res with notFull | done | ⟨-, full⟩
          · exact absurd (meaning.means.finishing_of_notFull notFull)
              (by rw [finishing]; decide)
          · exact done
          · exact absurd full (Nat.ne_of_lt short)
    show ((finish encoder).1.polled room).hse.finish.2 = false
    simp [HeatshrinkEncoder.finish, done]

/-- The session the driver is in. -/
def Runs (flag : Bool) (encoder : Encoder) (taken out : Bytes) : Prop :=
  encoder.1.Sent taken out ∧ (flag = false → encoder.1.finishing = false)

theorem coder_kept : StreamCoder.Kept coder Runs where
  reset := ⟨sent_reset List.length_replicate, fun _ => rfl⟩
  sink := by
    intro (encoder : Encoder) taken out input related
    rcases related with ⟨means, unset⟩
    rcases encoder.2 with ⟨-, -, -, rests⟩
    rcases sink_spec means rests input with ⟨means', -, sameFlag, -⟩
    exact ⟨means', fun _ => sameFlag.trans (unset rfl)⟩
  poll := by
    intro flag (encoder : Encoder) taken out room positive related
    rcases related with ⟨means, unset⟩
    have meaning := encoder.polled_spec positive means
    exact ⟨meaning.means, fun clear => meaning.finishing.trans (unset clear)⟩
  finish := by
    intro flag (encoder : Encoder) taken out related
    rcases related with ⟨means, -⟩
    rcases encoder.2 with ⟨-, -, -, rests⟩
    exact ⟨(finish_spec means rests).1, fun clear => absurd clear (by decide)⟩

end Encoder

end LoraSerial.Heatshrink
