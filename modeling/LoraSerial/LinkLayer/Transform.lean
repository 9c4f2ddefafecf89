import LoraSerial.LinkLayer.Ascon

/-!
Owns payload compression: the `Compress` and `Decompress` drivers over a
streaming coder, with every loop of both. The heatshrink coder itself is a
parameter, a `StreamCoder` whose laws are what the drivers rely on to terminate
and to stay inside their output buffer. Does not own a proof that the decoder
inverts the encoder.
-/

namespace LoraSerial.LinkLayer

structure PollResult (State : Type) where
  state : State
  output : Bytes
  more : Bool

/-- The four calls of a heatshrink encoder or decoder. `sink` says how many bytes
it took, `finish` whether more output waits. -/
structure StreamCoder where
  State : Type
  reset : State
  sink : State → Bytes → State × Nat
  poll : State → Nat → PollResult State
  finish : State → State × Bool
  /-- Input was taken and is being worked off; `finish` was not called. -/
  Busy : State → Prop
  /-- The coder can take input. -/
  Drained : State → Prop
  reset_drained : Drained reset
  sink_busy : ∀ state input, Drained state → Busy (sink state input).1
  sink_takes : ∀ state input, Drained state → input ≠ [] → 0 < (sink state input).2
  poll_busy : ∀ state room, Busy state → (poll state room).more = true →
    Busy (poll state room).state
  poll_drained : ∀ state room, Busy state → 0 < room → (poll state room).more = false →
    Drained (poll state room).state
  poll_bounded : ∀ state room, (poll state room).output.length ≤ room
  /-- `POLL_MORE` is returned only with a full output buffer. -/
  poll_more_full : ∀ state room, (poll state room).more = true →
    (poll state room).output.length = room
  /-- A poll after `FINISH_MORE` that leaves room has flushed everything. -/
  finish_flushes : ∀ state room, (finish state).2 = true →
    (poll (finish state).1 room).output.length < room →
    (finish (poll (finish state).1 room).state).2 = false

structure Heatshrink where
  encoder : StreamCoder
  decoder : StreamCoder

/-- A coder that copies its input. Like heatshrink on bytes without repetition, it
never shrinks anything. -/
def StreamCoder.copying : StreamCoder where
  State := Bytes
  reset := []
  sink := fun pending input => (pending ++ input, input.length)
  poll := fun pending room =>
    { state := pending.drop room, output := pending.take room, more := room ≤ pending.length }
  finish := fun pending => (pending, pending ≠ [])
  Busy := fun _ => True
  Drained := fun _ => True
  reset_drained := trivial
  sink_busy := fun _ _ _ => trivial
  sink_takes := fun _ _ _ nonempty => List.length_pos_iff.mpr nonempty
  poll_busy := fun _ _ _ _ => trivial
  poll_drained := fun _ _ _ _ _ => trivial
  poll_bounded := fun _ _ => List.length_take_le _ _
  poll_more_full := fun _ _ more => List.length_take_of_le (of_decide_eq_true more)
  finish_flushes := by
    intro pending room _ short
    have whole : pending.length ≤ room := by
      simp only [List.length_take] at short
      omega
    simp [List.drop_of_length_le whole]

def Heatshrink.copying : Heatshrink where
  encoder := StreamCoder.copying
  decoder := StreamCoder.copying

/-- A loop that stops with a value, stops because the output buffer is full, or
has not stopped yet. -/
inductive Drive (α : Type) where
  | running
  | full
  | done (value : α)
deriving DecidableEq, Repr

namespace StreamCoder

variable (coder : StreamCoder)

/-- `do { if (out >= cap) return -1; poll } while (POLL_MORE)` -/
def pollLoop (cap : Nat) : Nat → coder.State → Bytes → Drive (coder.State × Bytes)
  | 0, _, _ => .running
  | fuel + 1, state, out =>
      if cap ≤ out.length then .full
      else
        let polled := coder.poll state (cap - out.length)
        if polled.more then pollLoop cap fuel polled.state (out ++ polled.output)
        else .done (polled.state, out ++ polled.output)

/-- `while (sunk < len) { sink; pollLoop }` on the input that is left. -/
def sinkLoop (cap : Nat) : Nat → coder.State → Bytes → Bytes → Drive (coder.State × Bytes)
  | 0, _, _, _ => .running
  | fuel + 1, state, input, out =>
      if input = [] then .done (state, out)
      else
        let sunk := coder.sink state input
        match coder.pollLoop cap (cap + 2) sunk.1 out with
        | .done (state, out) => sinkLoop cap fuel state (input.drop sunk.2) out
        | stopped => stopped

/-- `do { finish; if (FINISH_MORE) { if (out >= cap) return -1; poll } }
while (FINISH_MORE)` -/
def finishLoop (cap : Nat) : Nat → coder.State → Bytes → Drive Bytes
  | 0, _, _ => .running
  | fuel + 1, state, out =>
      let finished := coder.finish state
      if finished.2 then
        if cap ≤ out.length then .full
        else
          let polled := coder.poll finished.1 (cap - out.length)
          finishLoop cap fuel polled.state (out ++ polled.output)
      else .done out

/-- Reset, push `src` through and flush, into at most `cap` bytes. -/
def drive (src : Bytes) (cap : Nat) : Drive Bytes :=
  match coder.sinkLoop cap (src.length + 1) coder.reset src [] with
  | .running => .running
  | .full => .full
  | .done (state, out) => coder.finishLoop cap (cap + 3) state out

end StreamCoder

/-- `none` is the source's -1: the result does not fit or does not shrink. -/
def compress (heatshrink : Heatshrink) (src : Bytes) (cap : Nat) : Option Bytes :=
  match heatshrink.encoder.drive src cap with
  | .done out => if src.length ≤ out.length then none else some out
  | _ => none

def decompress (heatshrink : Heatshrink) (src : Bytes) (cap : Nat) : Option Bytes :=
  match heatshrink.decoder.drive src cap with
  | .done out => some out
  | _ => none

/-! ## Termination and bounds of the drivers -/

namespace StreamCoder

variable {coder : StreamCoder}

/-- A second poll round always finds the buffer full. -/
private theorem pollLoop_stops (cap : Nat) {fuel : Nat} (enough : 2 ≤ fuel) (state : coder.State)
    (out : Bytes) : coder.pollLoop cap fuel state out ≠ .running := by
  obtain ⟨fuel, rfl⟩ : ∃ rest, fuel = rest + 2 := ⟨fuel - 2, by omega⟩
  unfold pollLoop
  by_cases full : cap ≤ out.length
  · simp [full]
  · simp only [full, if_false]
    by_cases more : (coder.poll state (cap - out.length)).more = true
    · have filled := coder.poll_more_full _ _ more
      rw [if_pos more, pollLoop, if_pos]
      · simp
      · rw [List.length_append, filled]
        omega
    · simp [more]

theorem pollLoop_done {cap fuel : Nat} {state : coder.State} {out : Bytes}
    {result : coder.State × Bytes} (busy : coder.Busy state)
    (stopped : coder.pollLoop cap fuel state out = .done result) :
    coder.Drained result.1 ∧ result.2.length ≤ cap := by
  induction fuel generalizing state out with
  | zero => simp [pollLoop] at stopped
  | succ fuel inductionHypothesis =>
      unfold pollLoop at stopped
      by_cases full : cap ≤ out.length
      · simp [full] at stopped
      · simp only [full, if_false] at stopped
        by_cases more : (coder.poll state (cap - out.length)).more = true
        · rw [if_pos more] at stopped
          exact inductionHypothesis (coder.poll_busy _ _ busy more) stopped
        · rw [if_neg more] at stopped
          have bounded := coder.poll_bounded state (cap - out.length)
          cases stopped
          refine ⟨coder.poll_drained _ _ busy (by omega) (by simpa using more), ?_⟩
          rw [List.length_append]
          omega

private theorem sinkLoop_stops (cap : Nat) {fuel : Nat} {state : coder.State} {input : Bytes}
    (out : Bytes) (drained : coder.Drained state) (enough : input.length < fuel) :
    coder.sinkLoop cap fuel state input out ≠ .running := by
  induction fuel generalizing state input out with
  | zero => omega
  | succ fuel inductionHypothesis =>
      unfold sinkLoop
      by_cases empty : input = []
      · simp [empty]
      · rw [if_neg empty]
        have stops := pollLoop_stops cap (show 2 ≤ cap + 2 by omega)
          (coder.sink state input).1 out
        have taken := coder.sink_takes state input drained empty
        have positive := List.length_pos_iff.mpr empty
        cases result : coder.pollLoop cap (cap + 2) (coder.sink state input).1 out with
        | running => exact absurd result stops
        | full => simp [result]
        | done value =>
            simp only [result]
            have ready := (pollLoop_done (coder.sink_busy state input drained) result).1
            exact inductionHypothesis _ ready (by rw [List.length_drop]; omega)

theorem sinkLoop_done {cap fuel : Nat} {state : coder.State} {input out : Bytes}
    {result : coder.State × Bytes} (drained : coder.Drained state) (fits : out.length ≤ cap)
    (stopped : coder.sinkLoop cap fuel state input out = .done result) :
    result.2.length ≤ cap := by
  induction fuel generalizing state input out with
  | zero => simp [sinkLoop] at stopped
  | succ fuel inductionHypothesis =>
      unfold sinkLoop at stopped
      by_cases empty : input = []
      · rw [if_pos empty] at stopped
        cases stopped
        exact fits
      · rw [if_neg empty] at stopped
        cases polled : coder.pollLoop cap (cap + 2) (coder.sink state input).1 out with
        | running => simp [polled] at stopped
        | full => simp [polled] at stopped
        | done value =>
            simp only [polled] at stopped
            obtain ⟨ready, fits⟩ := pollLoop_done (coder.sink_busy state input drained) polled
            exact inductionHypothesis ready fits stopped

private theorem finishLoop_stops {cap fuel : Nat} (enough : 3 ≤ fuel) (state : coder.State)
    (out : Bytes) : coder.finishLoop cap fuel state out ≠ .running := by
  obtain ⟨fuel, rfl⟩ : ∃ rest, fuel = rest + 3 := ⟨fuel - 3, by omega⟩
  unfold finishLoop
  by_cases more : (coder.finish state).2 = true
  · simp only [more, if_true]
    by_cases full : cap ≤ out.length
    · simp [full]
    · rw [if_neg full]
      have bounded := coder.poll_bounded (coder.finish state).1 (cap - out.length)
      unfold finishLoop
      by_cases filled :
          (coder.poll (coder.finish state).1 (cap - out.length)).output.length = cap - out.length
      · have exceeds : cap ≤ (out ++ (coder.poll (coder.finish state).1
            (cap - out.length)).output).length := by
          rw [List.length_append, filled]
          omega
        simp only [if_pos exceeds]
        split <;> simp
      · have flushed := coder.finish_flushes state (cap - out.length) more (by omega)
        simp [flushed]
  · simp [more]

private theorem finishLoop_done {cap fuel : Nat} {state : coder.State} {out result : Bytes}
    (fits : out.length ≤ cap) (stopped : coder.finishLoop cap fuel state out = .done result) :
    result.length ≤ cap := by
  induction fuel generalizing state out with
  | zero => simp [finishLoop] at stopped
  | succ fuel inductionHypothesis =>
      unfold finishLoop at stopped
      by_cases more : (coder.finish state).2 = true
      · simp only [more, if_true] at stopped
        by_cases full : cap ≤ out.length
        · simp [full] at stopped
        · rw [if_neg full] at stopped
          have bounded := coder.poll_bounded (coder.finish state).1 (cap - out.length)
          exact inductionHypothesis (by rw [List.length_append]; omega) stopped
      · simp only [more] at stopped
        cases stopped
        exact fits

/-- Every driver loop stops inside its fuel. -/
theorem drive_stops (src : Bytes) (cap : Nat) : coder.drive src cap ≠ .running := by
  have stops := sinkLoop_stops cap [] coder.reset_drained (Nat.lt_succ_self src.length)
  unfold drive
  cases sunk : coder.sinkLoop cap (src.length + 1) coder.reset src [] with
  | running => exact absurd sunk stops
  | full => simp
  | done value => exact finishLoop_stops (by omega) _ _

theorem length_drive {src out : Bytes} {cap : Nat} (stopped : coder.drive src cap = .done out) :
    out.length ≤ cap := by
  unfold drive at stopped
  cases sunk : coder.sinkLoop cap (src.length + 1) coder.reset src [] with
  | running => simp [sunk] at stopped
  | full => simp [sunk] at stopped
  | done value =>
      simp only [sunk] at stopped
      exact finishLoop_done (sinkLoop_done coder.reset_drained (Nat.zero_le _) sunk) stopped

end StreamCoder

theorem length_compress_lt {heatshrink : Heatshrink} {src out : Bytes} {cap : Nat}
    (compressed : compress heatshrink src cap = some out) : out.length < src.length := by
  unfold compress at compressed
  cases driven : heatshrink.encoder.drive src cap with
  | running => simp [driven] at compressed
  | full => simp [driven] at compressed
  | done value =>
      simp only [driven, Option.ite_none_left_eq_some, Option.some.injEq] at compressed
      obtain ⟨shrinks, rfl⟩ := compressed
      omega

theorem length_decompress_le {heatshrink : Heatshrink} {src out : Bytes} {cap : Nat}
    (decompressed : decompress heatshrink src cap = some out) : out.length ≤ cap := by
  unfold decompress at decompressed
  cases driven : heatshrink.decoder.drive src cap with
  | running => simp [driven] at decompressed
  | full => simp [driven] at decompressed
  | done value =>
      simp only [driven, Option.some.injEq] at decompressed
      subst decompressed
      exact StreamCoder.length_drive driven

end LoraSerial.LinkLayer
